import LeadingTerms.Completion

/-!
# Which arguments are a request

A request for completions stands behind arguments that are passed over (`Completion.PassedOver`), and nowhere else: the search
for it finds exactly the requests told by that form (`Completion.request?_eq_some_iff`). If the first argument is a word, a
request can only be made by it (`Completion.Requests.word_eq_head`). A request reads no input, and fails only if there is no
word to complete (`Completion.Request.outcome_eq`).
-/

namespace LeadingTerms

namespace Completion

open Arguments (dash equals)

/-- The arguments that are passed over in front of a word: those that are empty, flags that have a value or can have none, and
other flags with the argument behind them. The end of the flags is passed over only in the place of that argument. -/
inductive PassedOver : List Bytes → Prop where
  | nil : PassedOver []
  | blank {args : List Bytes} : PassedOver args → PassedOver ([] :: args)
  | flag {arg : Bytes} {args : List Bytes} (hdash : arg.head? = some dash) (halone : takesNext arg = false) :
      PassedOver args → PassedOver (arg :: args)
  | flagWithNext {arg next : Bytes} {args : List Bytes} (hflag : arg ≠ [dash, dash]) (htakes : takesNext arg = true) :
      PassedOver args → PassedOver (arg :: next :: args)

/-- A word that can name a command. -/
def IsWord (arg : Bytes) : Prop := arg ≠ [] ∧ arg.head? ≠ some dash

/-- A word stands for itself. -/
theorem IsWord.takesNext_eq_false {arg : Bytes} (h : IsWord arg) : takesNext arg = false := by
  obtain ⟨hne, hdash⟩ := h
  cases arg with
  | nil => exact absurd rfl hne
  | cons b bs =>
    have hb : b ≠ dash := fun heq => hdash (congrArg some heq)
    have hdashes : [dash, dash].isPrefixOf (b :: bs) = false := by
      rw [List.isPrefixOf_cons_cons, beq_eq_false_iff_ne.mpr hb.symm, Bool.false_and]
    simp [takesNext, hb, hdashes]

theorem word?_cons_of_isWord {arg : Bytes} (h : IsWord arg) (args : List Bytes) : word? (arg :: args) = some (arg, args) := by
  have hend : arg ≠ [dash, dash] := by
    rintro rfl
    exact h.2 rfl
  have hword : ¬(arg.isEmpty ∨ arg.head? = some dash) := by
    rw [not_or, List.isEmpty_iff]
    exact h
  rw [word?.eq_def]
  simp only [if_neg hend, h.takesNext_eq_false, Bool.false_eq_true, if_false, if_neg hword]

/-- The search goes on behind arguments that are passed over. -/
theorem PassedOver.word?_append {before : List Bytes} (h : PassedOver before) (args : List Bytes) :
    word? (before ++ args) = (word? args).map fun (word, others) => (word, before ++ others) := by
  induction h with
  | nil => simp
  | blank _ ih =>
    have hblank : takesNext [] = false := rfl
    rw [List.cons_append, word?.eq_def]
    simp [hblank, ih, Function.comp_def]
  | @flag arg before hdash halone _ ih =>
    have hend : arg ≠ [dash, dash] := by
      rintro rfl
      cases halone
    rw [List.cons_append, word?.eq_def]
    simp [hend, halone, hdash, ih, Function.comp_def]
  | @flagWithNext arg next before hflag htakes _ ih =>
    rw [List.cons_append, List.cons_append, word?.eq_def]
    simp [hflag, htakes, ih, Function.comp_def]

/-- The search finds the first word behind arguments that are passed over, and nothing else. -/
theorem word?_eq_some_iff (args : List Bytes) (word : Bytes) (others : List Bytes) :
    word? args = some (word, others) ↔
      ∃ before after, PassedOver before ∧ IsWord word ∧ args = before ++ word :: after ∧ others = before ++ after := by
  constructor
  · intro h
    induction args using word?.induct generalizing others with
    | case1 => cases h
    | case2 args => simp [word?.eq_def] at h
    | case3 arg hend htakes => simp [word?.eq_def, hend, htakes] at h
    | case4 arg hend htakes next args ih =>
      rw [word?.eq_def] at h
      simp only [if_neg hend, htakes, if_true, Option.map_eq_some_iff, Prod.mk.injEq, Prod.exists] at h
      obtain ⟨_, others', hfound, rfl, rfl⟩ := h
      obtain ⟨before, after, hbefore, hword, rfl, rfl⟩ := ih others' hfound
      exact ⟨arg :: next :: before, after, .flagWithNext hend htakes hbefore, hword, rfl, rfl⟩
    | case5 arg args hend htakes hpassed ih =>
      rw [Bool.not_eq_true] at htakes
      rw [word?.eq_def] at h
      simp only [if_neg hend, htakes, Bool.false_eq_true, if_false, if_pos hpassed, Option.map_eq_some_iff, Prod.mk.injEq,
        Prod.exists] at h
      obtain ⟨_, others', hfound, rfl, rfl⟩ := h
      obtain ⟨before, after, hbefore, hword, rfl, rfl⟩ := ih others' hfound
      refine ⟨arg :: before, after, ?_, hword, rfl, rfl⟩
      rcases hpassed with hempty | hdash
      · rw [List.isEmpty_iff.mp hempty]
        exact .blank hbefore
      · exact .flag hdash htakes hbefore
    | case6 arg args hend htakes hword =>
      rw [not_or, List.isEmpty_iff] at hword
      rw [word?_cons_of_isWord hword, Option.some.injEq, Prod.mk.injEq] at h
      obtain ⟨rfl, rfl⟩ := h
      exact ⟨[], args, .nil, hword, rfl, rfl⟩
  · rintro ⟨before, after, hbefore, hword, rfl, rfl⟩
    rw [hbefore.word?_append, word?_cons_of_isWord hword]
    rfl

/-! ## Requests -/

/-- The word that makes a request. -/
def Request.word (r : Request) : Bytes := if r.described then describedWord else plainWord

theorem Request.isWord_word (r : Request) : IsWord r.word := by
  unfold Request.word IsWord
  cases r.described <;> decide

/-- The arguments make a request: its word stands behind arguments that are passed over, and the command line to be completed
is all the others. -/
def Requests (args : List Bytes) (r : Request) : Prop :=
  ∃ before after, PassedOver before ∧ args = before ++ r.word :: after ∧ r.line = before ++ after

/-- The search finds the requests that arguments make. -/
theorem request?_eq_some_iff (args : List Bytes) (r : Request) : request? args = some r ↔ Requests args r := by
  have hdiffer : plainWord ≠ describedWord := by decide
  constructor
  · intro h
    unfold request? at h
    cases hword : word? args with
    | none =>
      rw [hword] at h
      cases h
    | some found =>
      obtain ⟨word, line⟩ := found
      obtain ⟨before, after, hbefore, -, hargs, hline⟩ := (word?_eq_some_iff args word line).mp hword
      simp only [hword] at h
      split at h
      · rename_i heq
        subst heq
        cases h
        exact ⟨before, after, hbefore, hargs, hline⟩
      · split at h
        · rename_i heq
          subst heq
          cases h
          exact ⟨before, after, hbefore, hargs, hline⟩
        · cases h
  · rintro ⟨before, after, hbefore, hargs, hline⟩
    have hword := (word?_eq_some_iff args r.word r.line).mpr ⟨before, after, hbefore, r.isWord_word, hargs, hline⟩
    obtain ⟨described, line⟩ := r
    rw [request?, hword]
    cases described with
    | true => rfl
    | false => exact (if_neg hdiffer).trans (if_pos rfl)

instance (args : List Bytes) (r : Request) : Decidable (Requests args r) :=
  decidable_of_iff _ (request?_eq_some_iff args r)

/-- If the first argument is a word, no other one can make a request. -/
theorem Requests.word_eq_head {args : List Bytes} {r : Request} (h : Requests args r) {first : Bytes}
    (hfirst : args.head? = some first) (hword : IsWord first) : first = r.word := by
  obtain ⟨rest, rfl⟩ := List.head?_eq_some_iff.mp hfirst
  obtain ⟨before, after, hbefore, hargs, -⟩ := h
  cases hbefore with
  | nil => exact (List.cons.inj hargs).1
  | blank _ => exact absurd (List.cons.inj hargs).1 hword.1
  | flag hdash _ _ =>
    obtain ⟨rfl, -⟩ := List.cons.inj hargs
    exact absurd hdash hword.2
  | flagWithNext _ htakes _ =>
    obtain ⟨rfl, -⟩ := List.cons.inj hargs
    rw [hword.takesNext_eq_false] at htakes
    cases htakes

/-- What becomes of a request: without a word to complete it fails and nothing is written; otherwise completions are written
and a line with a directive behind them. No input is read. -/
theorem Request.outcome_eq (r : Request) (source : Source) :
    (r.line = [] → r.outcome source = ⟨[], [], source, some .nothingToComplete⟩) ∧
    (r.line ≠ [] → ∃ (completions notes : Bytes) (d : Directive),
      r.outcome source = ⟨completions ++ d.line, notes, source, none⟩) := by
  unfold Request.outcome
  cases hlast : r.line.getLast? with
  | none => exact ⟨fun _ => rfl, fun hne => absurd (List.getLast?_eq_none_iff.mp hlast) hne⟩
  | some typed =>
    refine ⟨fun hnil => ?_, fun _ => ⟨_, _, _, rfl⟩⟩
    rw [hnil] at hlast
    cases hlast

end Completion

end LeadingTerms

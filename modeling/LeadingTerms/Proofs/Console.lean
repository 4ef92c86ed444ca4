import LeadingTerms.Outcome

/-!
# Actions on an output that may refuse

A limit on the output changes nothing about an action but the point at which it stops. `Metered` says so: as long as the
limit has room for all chunks of the unlimited run, the limited run is that run, and otherwise it takes as many chunks as
there is room for and fails on the next one. Every action of the console is metered, and metered actions compose
(`Metered.bind`). `Quiet` actions touch neither the log nor the input.
-/

namespace LeadingTerms

variable {α β : Type}

namespace Console

@[simp] theorem fresh_chunks (limit : Option Nat) (source : Source) : (fresh limit source).sink.chunks = [] := rfl

@[simp] theorem fresh_source (limit : Option Nat) (source : Source) : (fresh limit source).source = source := rfl

end Console

/-! ## What an action leaves -/

namespace Action

/-- The console that an action leaves, whether it succeeds or fails. -/
def leaves (action : Action α) (c : Console) : Console :=
  match action c with
  | .ok _ c' => c'
  | .error _ c' => c'

/-- The error of an action, if it fails. -/
def error? (action : Action α) (c : Console) : Option Error :=
  match action c with
  | .ok _ _ => none
  | .error e _ => some e

section

variable {action : Action α} {c c' : Console}

theorem leaves_of_ok {x : α} (h : action c = .ok x c') : leaves action c = c' := by
  unfold leaves
  rw [h]

theorem leaves_of_error {e : Error} (h : action c = .error e c') : leaves action c = c' := by
  unfold leaves
  rw [h]

theorem error?_of_ok {x : α} (h : action c = .ok x c') : error? action c = none := by
  unfold error?
  rw [h]

theorem error?_of_error {e : Error} (h : action c = .error e c') : error? action c = some e := by
  unfold error?
  rw [h]

/-- Runs with the same result leave the same console. -/
theorem leaves_congr {action' : Action α} (h : action c = action' c') : leaves action c = leaves action' c' := by
  unfold leaves
  rw [h]

/-- Runs with the same result have the same error. -/
theorem error?_congr {action' : Action α} (h : action c = action' c') : error? action c = error? action' c' := by
  unfold error?
  rw [h]

end

/-- The outcome of an action is read off the console that it leaves, and its error. -/
theorem ofAction_eq (action : Action Unit) (limit : Option Nat) (source : Source) :
    Outcome.ofAction action limit source =
      ⟨(leaves action (.fresh limit source)).sink.output, (leaves action (.fresh limit source)).log,
        (leaves action (.fresh limit source)).source, error? action (.fresh limit source)⟩ := by
  unfold Outcome.ofAction leaves error?
  split
  · rename_i h
    rw [h]
  · rename_i h
    rw [h]

/-- After a success the next action goes on from the console that was left. -/
theorem bind_of_ok {action : Action α} {next : α → Action β} {c c' : Console} {x : α} (h : action c = .ok x c') :
    (action >>= next) c = next x c' := by
  show EStateM.bind action next c = _
  unfold EStateM.bind
  rw [h]

/-- After a failure there is no next action. -/
theorem bind_of_error {action : Action α} {next : α → Action β} {c c' : Console} {e : Error}
    (h : action c = .error e c') : (action >>= next) c = .error e c' := by
  show EStateM.bind action next c = _
  unfold EStateM.bind
  rw [h]

end Action

/-! ## Asking and writing -/

namespace Console

variable {generator : Generator} {i : Int64} {c c' : Console}

theorem ask_of_ok {term : UInt64} (h : generator i = .ok term) :
    ask generator i c = .ok term { c with asked := i :: c.asked } := by
  unfold ask
  rw [h]

theorem ask_of_error {fault : Fault} (h : generator i = .error fault) :
    ask generator i c = .error (.fault fault) { c with asked := i :: c.asked } := by
  unfold ask
  rw [h]

/-- A chunk is refused if there is no room for it. -/
theorem write_of_left_zero (h : c.sink.left = some 0) (chunk : Bytes) : write chunk c = .error .writeRefused c := by
  unfold write Sink.offer
  rw [h]

/-- Otherwise it is taken, and there is room for one less. -/
theorem exists_write (h : c.sink.left ≠ some 0) (chunk : Bytes) :
    ∃ c', write chunk c = .ok () c' ∧ c'.sink.left = c.sink.left.map (· - 1) ∧ c'.asked = c.asked := by
  unfold write Sink.offer
  cases hleft : c.sink.left with
  | none => exact ⟨_, rfl, rfl, rfl⟩
  | some k =>
    cases k with
    | zero => exact absurd hleft h
    | succ k => exact ⟨_, rfl, rfl, rfl⟩

/-- A chunk that is taken uses up room for one. -/
theorem of_write_ok {chunk : Bytes} (h : write chunk c = .ok () c') :
    c.sink.left ≠ some 0 ∧ c'.sink.left = c.sink.left.map (· - 1) ∧ c'.asked = c.asked := by
  have hroom : c.sink.left ≠ some 0 := by
    intro hfull
    rw [write_of_left_zero hfull] at h
    cases h
  obtain ⟨c₁, hwrite, hleft, hasked⟩ := exists_write hroom chunk
  rw [h] at hwrite
  cases hwrite
  exact ⟨hroom, hleft, hasked⟩

end Console

/-! ## Actions under a limit -/

/-- The console with room for so many more chunks. -/
def Console.withRoom (c : Console) (k : Nat) : Console := { c with sink := { c.sink with left := some k } }

/-- The result of an action with the console changed. -/
def mapConsole (f : Console → Console) : EStateM.Result Error Console α → EStateM.Result Error Console α
  | .ok x c => .ok x (f c)
  | .error e c => .error e (f c)

/-- A run whose result is another one with the console changed leaves that console changed and the same error. -/
theorem leaves_of_eq_mapConsole {action : Action α} {c c' : Console} {f : Console → Console}
    (h : action c' = mapConsole f (action c)) :
    Action.leaves action c' = f (Action.leaves action c) ∧ Action.error? action c' = Action.error? action c := by
  unfold Action.leaves Action.error?
  rw [h]
  cases action c with
  | ok x c₁ => exact ⟨rfl, rfl⟩
  | error e c₁ => exact ⟨rfl, rfl⟩

/-- What an action does under every limit, given the chunks it writes without one: it is not refused without a limit, it is
the same under a limit with room for all chunks, and under any other limit it is refused after as many chunks as there is
room for. -/
structure MeteredBy (action : Action α) (c : Console) (chunks : List Bytes) : Prop where
  unlimited : (Action.leaves action c).sink = ⟨chunks.reverse ++ c.sink.chunks, none⟩
  notRefused : Action.error? action c ≠ some .writeRefused
  fits : ∀ k, chunks.length ≤ k → action (c.withRoom k) = mapConsole (·.withRoom (k - chunks.length)) (action c)
  refused : ∀ k, k < chunks.length → ∃ c', action (c.withRoom k) = .error .writeRefused c' ∧
    c'.sink = ⟨(chunks.take k).reverse ++ c.sink.chunks, some 0⟩

/-- A limit changes nothing about the action but the point at which it stops. -/
def Metered (action : Action α) : Prop :=
  ∀ c : Console, c.sink.left = none → ∃ chunks : List Bytes, MeteredBy action c chunks

/-- An action that leaves the output alone and does not ask how much room it has is metered. -/
theorem metered_of_sink_eq {action : Action α} (hsink : ∀ c, (Action.leaves action c).sink = c.sink)
    (herror : ∀ c, Action.error? action c ≠ some .writeRefused)
    (hroom : ∀ c k, action (c.withRoom k) = mapConsole (·.withRoom k) (action c)) : Metered action := by
  intro c hc
  refine ⟨[], ⟨?_, herror c, fun k _ => hroom c k, fun k hk => absurd hk (Nat.not_lt_zero k)⟩⟩
  rw [hsink, ← hc]
  rfl

theorem metered_pure (x : α) : Metered (pure x : Action α) :=
  metered_of_sink_eq (fun _ => rfl) (fun _ => nofun) (fun _ _ => rfl)

theorem metered_note (threshold : Level) (r : Record) : Metered (Console.note threshold r) :=
  metered_of_sink_eq (fun _ => rfl) (fun _ => nofun) (fun _ _ => rfl)

theorem metered_readInteger : Metered Console.readInteger := by
  apply metered_of_sink_eq
  · intro c
    unfold Action.leaves Console.readInteger
    rcases scan c.source with ⟨_ | _, _⟩ <;> rfl
  · intro c
    unfold Action.error? Console.readInteger
    rcases scan c.source with ⟨_ | _, _⟩ <;> exact nofun
  · intro c k
    have hs : (c.withRoom k).source = c.source := rfl
    unfold Console.readInteger
    rw [hs]
    rcases scan c.source with ⟨_ | _, _⟩ <;> rfl

theorem metered_ask (generator : Generator) (i : Int64) : Metered (Console.ask generator i) := by
  apply metered_of_sink_eq
  · intro c
    unfold Action.leaves Console.ask
    cases generator i <;> rfl
  · intro c
    unfold Action.error? Console.ask
    cases generator i <;> exact nofun
  · intro c k
    unfold Console.ask
    cases generator i <;> rfl

/-- Without a limit a chunk is taken. -/
theorem write_of_left_none {c : Console} (h : c.sink.left = none) (chunk : Bytes) :
    Console.write chunk c = .ok () { c with sink := ⟨chunk :: c.sink.chunks, none⟩ } := by
  unfold Console.write Sink.offer
  rw [h]

theorem metered_write (chunk : Bytes) : Metered (Console.write chunk) := by
  intro c hc
  have hw := write_of_left_none hc chunk
  refine ⟨[chunk], ⟨?_, ?_, fun k hk => ?_, fun k hk => ?_⟩⟩
  · rw [Action.leaves_of_ok hw]
    rfl
  · rw [Action.error?_of_ok hw]
    exact nofun
  · cases k with
    | zero => exact absurd hk (by simp)
    | succ k =>
      rw [hw]
      rfl
  · obtain rfl : k = 0 := by
      simpa using hk
    exact ⟨c.withRoom 0, rfl, rfl⟩

/-- Metered actions compose: the chunks of both are written one after the other. -/
theorem Metered.bind {action : Action α} {next : α → Action β} (ha : Metered action) (hn : ∀ x, Metered (next x)) :
    Metered (action >>= next) := by
  intro c hc
  obtain ⟨chunks, hm⟩ := ha c hc
  cases hr : action c with
  | error e c₁ =>
    -- The first action fails on its own, so its chunks are all there are.
    refine ⟨chunks, ⟨?_, ?_, fun k hk => ?_, fun k hk => ?_⟩⟩
    · rw [Action.leaves_of_error (Action.bind_of_error hr), ← Action.leaves_of_error hr]
      exact hm.unlimited
    · rw [Action.error?_of_error (Action.bind_of_error hr), ← Action.error?_of_error hr]
      exact hm.notRefused
    · have hf := hm.fits k hk
      rw [hr] at hf
      rw [Action.bind_of_error hr, Action.bind_of_error hf]
      rfl
    · obtain ⟨c', hc', hs⟩ := hm.refused k hk
      exact ⟨c', Action.bind_of_error hc', hs⟩
  | ok x c₁ =>
    have hleft := hm.unlimited
    rw [Action.leaves_of_ok hr] at hleft
    obtain ⟨chunks', hm'⟩ := hn x c₁ (by rw [hleft])
    refine ⟨chunks ++ chunks', ⟨?_, ?_, fun k hk => ?_, fun k hk => ?_⟩⟩
    · rw [Action.leaves_congr (Action.bind_of_ok hr), hm'.unlimited, hleft]
      simp
    · rw [Action.error?_congr (Action.bind_of_ok hr)]
      exact hm'.notRefused
    · rw [List.length_append] at hk
      have hf := hm.fits k (by omega)
      rw [hr] at hf
      rw [Action.bind_of_ok hf, Action.bind_of_ok hr, List.length_append, ← Nat.sub_sub]
      exact hm'.fits (k - chunks.length) (by omega)
    · rw [List.length_append] at hk
      by_cases hfirst : k < chunks.length
      · obtain ⟨c', hc', hs⟩ := hm.refused k hfirst
        refine ⟨c', Action.bind_of_error hc', ?_⟩
        rw [hs, List.take_append_of_le_length (by omega)]
      · have hf := hm.fits k (by omega)
        rw [hr] at hf
        obtain ⟨c', hc', hs⟩ := hm'.refused (k - chunks.length) (by omega)
        refine ⟨c', ?_, ?_⟩
        · rw [Action.bind_of_ok hf]
          exact hc'
        · rw [hs, hleft, List.take_append, List.take_of_length_le (show chunks.length ≤ k by omega)]
          simp

/-! ## Actions that neither log nor read -/

/-- The action leaves the log and the input alone. -/
def Quiet (action : Action α) : Prop :=
  ∀ c, (Action.leaves action c).log = c.log ∧ (Action.leaves action c).source = c.source

theorem quiet_pure (x : α) : Quiet (pure x : Action α) := fun _ => ⟨rfl, rfl⟩

theorem quiet_write (chunk : Bytes) : Quiet (Console.write chunk) := by
  intro c
  unfold Action.leaves Console.write
  cases c.sink.offer chunk <;> exact ⟨rfl, rfl⟩

theorem quiet_ask (generator : Generator) (i : Int64) : Quiet (Console.ask generator i) := by
  intro c
  unfold Action.leaves Console.ask
  cases generator i <;> exact ⟨rfl, rfl⟩

/-- Quiet actions compose. -/
theorem Quiet.bind {action : Action α} {next : α → Action β} (ha : Quiet action) (hn : ∀ x, Quiet (next x)) :
    Quiet (action >>= next) := by
  intro c
  cases hr : action c with
  | error e c₁ =>
    rw [Action.leaves_of_error (Action.bind_of_error hr), ← Action.leaves_of_error hr]
    exact ha c
  | ok x c₁ =>
    obtain ⟨hlog, hsource⟩ := ha c
    obtain ⟨hlog', hsource'⟩ := hn x c₁
    rw [Action.leaves_of_ok hr] at hlog hsource
    rw [Action.leaves_congr (Action.bind_of_ok hr)]
    exact ⟨hlog'.trans hlog, hsource'.trans hsource⟩

end LeadingTerms

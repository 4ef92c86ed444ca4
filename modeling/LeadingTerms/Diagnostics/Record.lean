import LeadingTerms.Diagnostics.Level
import LeadingTerms.Text.Quoted

/-!
# Log records

A record is one line: its level, its message unless that is empty, and one field. A text of harmless characters is written
bare and any other text quoted, so a record is a single line whatever the text.
-/

namespace LeadingTerms

/-- Something worth telling, with one field. -/
structure Record where
  level : Level
  message : Bytes
  key : Bytes
  value : Bytes
deriving DecidableEq

namespace Record

/-- Whether a byte may stand in a bare text: a letter, a digit or one of `- . _ / @ ^ +`. -/
def isBareByte (b : UInt8) : Bool :=
  (0x61 ≤ b && b ≤ 0x7A) || (0x41 ≤ b && b ≤ 0x5A) || (0x30 ≤ b && b ≤ 0x39) ||
    (utf8 "-._/@^+").contains b

/-- A text as it stands in a record: bare if nothing in it needs quotes. -/
def shown (text : Bytes) : Bytes :=
  if text.all isBareByte then text else quoteText text

/-- The keys that a record uses itself, or keeps back for a time stamp and for its own failures. -/
def reservedKeys : List Bytes := [utf8 "level", utf8 "msg", utf8 "time", utf8 "logrus_error"]

/-- A key as it stands in a record. A reserved key is set apart. -/
def shownKey (key : Bytes) : Bytes :=
  if reservedKeys.contains key then utf8 "fields." ++ key else key

/-- The line of a record. -/
def line (r : Record) : Bytes :=
  utf8 "level=" ++ utf8 r.level.name ++
    (if r.message.isEmpty then [] else utf8 " msg=" ++ shown r.message) ++
    utf8 " " ++ shownKey r.key ++ utf8 "=" ++ shown r.value ++ utf8 "\n"

/-- What a log at the given level shows of a record. -/
def shownAt (threshold : Level) (r : Record) : Bytes :=
  if threshold.shownAt r.level then r.line else []

end Record

end LeadingTerms

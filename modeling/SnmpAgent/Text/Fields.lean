/-!
# Splitting text

A text is a list of characters. Splitting it at separators keeps every field,
empty ones included, so a text with `n` separators has `n + 1` fields.

* `splitWhere_ne_nil`: there is always a first field;
* `splitOnce`: the text before and after the first separator;
* `stripLead?`: the text after a given beginning.
-/

namespace SnmpAgent.Text

/-- The fields of a text between the characters that satisfy `isSeparator`. -/
def splitWhere (isSeparator : Char → Bool) : List Char → List (List Char)
  | [] => [[]]
  | c :: cs =>
    if isSeparator c then [] :: splitWhere isSeparator cs
    else match splitWhere isSeparator cs with
      | [] => [[c]]
      | field :: fields => (c :: field) :: fields

/-- The fields of a text between the separators `separator`. -/
def split (separator : Char) (text : List Char) : List (List Char) :=
  splitWhere (· = separator) text

/-- A text has at least one field. -/
theorem splitWhere_ne_nil (isSeparator : Char → Bool) (text : List Char) :
    splitWhere isSeparator text ≠ [] := by
  cases text with
  | nil => simp [splitWhere]
  | cons c cs =>
    unfold splitWhere
    split
    · simp
    · split <;> simp

/-- The text before and after the first separator, if there is one. -/
def splitOnce (separator : Char) : List Char → Option (List Char × List Char)
  | [] => none
  | c :: cs =>
    if c = separator then some ([], cs)
    else (splitOnce separator cs).map fun (before, after) => (c :: before, after)

/-- What follows `lead` in a text that begins with it. -/
def stripLead? : (lead text : List Char) → Option (List Char)
  | [], text => some text
  | _ :: _, [] => none
  | l :: lead, c :: text => if l = c then stripLead? lead text else none

end SnmpAgent.Text

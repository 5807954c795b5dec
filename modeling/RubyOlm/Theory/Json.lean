import Mathlib.Data.List.Basic

/-!
# JSON texts

The part of JSON that has objects and strings only: texts are lists of bytes, and a string holds printable
ASCII characters with nothing to escape. What this reader accepts, every JSON reader accepts as the same value.
-/

namespace RubyOlm

mutual

inductive Json where
  | string (text : List UInt8)
  | object (members : JsonMembers)

inductive JsonMembers where
  | nil
  | cons (name : List UInt8) (value : Json) (members : JsonMembers)

end

namespace Json

def quote : UInt8 := 0x22

def comma : UInt8 := 0x2C

def colon : UInt8 := 0x3A

def backslash : UInt8 := 0x5C

def openBrace : UInt8 := 0x7B

def closeBrace : UInt8 := 0x7D

/-- Characters that stand for themselves in a string. -/
def plainChar (char : UInt8) : Bool := 0x20 ≤ char && char < 0x7F && char ≠ quote && char ≠ backslash

def renderString (text : List UInt8) : List UInt8 := quote :: text ++ [quote]

mutual

def render : Json → List UInt8
  | string text => renderString text
  | object members => renderMembers openBrace members

/-- The members with `sep` before the first one, up to the closing brace. An object without members still has
its opening brace. -/
def renderMembers (sep : UInt8) : JsonMembers → List UInt8
  | .nil => (if sep = comma then [] else [sep]) ++ [closeBrace]
  | .cons name value members => sep :: renderString name ++ colon :: render value ++ renderMembers comma members

end

mutual

def Plain : Json → Prop
  | string text => ∀ char ∈ text, plainChar char
  | object members => PlainMembers members

def PlainMembers : JsonMembers → Prop
  | .nil => True
  | .cons name value members => (∀ char ∈ name, plainChar char) ∧ Plain value ∧ PlainMembers members

end

/-! ### Reading -/

/-- The rest of a string, up to the closing quote, and what follows. -/
def parseText : (input : List UInt8) → Option (List UInt8 × List UInt8)
  | [] => none
  | char :: input =>
    if char = quote then some ([], input)
    else if plainChar char then (parseText input).map fun read => (char :: read.1, read.2)
    else none

mutual

def parseValue : (fuel : Nat) → (input : List UInt8) → Option (Json × List UInt8)
  | 0, _ => none
  | _ + 1, [] => none
  | fuel + 1, char :: input =>
    if char = quote then (parseText input).map fun read => (string read.1, read.2)
    else if char = openBrace then
      if input.head? = some closeBrace then some (object .nil, input.tail)
      else (parseMembers fuel input).map fun read => (object read.1, read.2)
    else none

/-- The members of an object from a name on, and what follows the closing brace. -/
def parseMembers : (fuel : Nat) → (input : List UInt8) → Option (JsonMembers × List UInt8)
  | 0, _ => none
  | _ + 1, [] => none
  | fuel + 1, char :: input =>
    if char ≠ quote then none
    else
      match parseText input with
      | none => none
      | some (name, input) =>
        if input.head? ≠ some colon then none
        else
          match parseValue fuel input.tail with
          | none => none
          | some (value, input) =>
            if input.head? = some closeBrace then some (.cons name value .nil, input.tail)
            else if input.head? = some comma then
              (parseMembers fuel input.tail).map fun read => (.cons name value read.1, read.2)
            else none

end

def parse (input : List UInt8) : Option Json :=
  match parseValue (input.length + 1) input with
  | some (json, []) => some json
  | _ => none

/-! ### Round trip -/

theorem plainChar_ne_quote {char : UInt8} (plain : plainChar char) : char ≠ quote := by
  unfold plainChar at plain
  simp_all

theorem parseText_string {text : List UInt8} (plain : ∀ char ∈ text, plainChar char) (rest : List UInt8) :
    parseText (text ++ quote :: rest) = some (text, rest) := by
  induction text with
  | nil => rfl
  | cons char text ih =>
    have here := plain char List.mem_cons_self
    have later := ih fun char mem => plain char (List.mem_cons_of_mem _ mem)
    simp only [List.cons_append, parseText, if_neg (plainChar_ne_quote here), here, if_true, later, Option.map_some]

theorem length_render_pos (json : Json) : 0 < (render json).length := by
  cases json with
  | string text => exact Nat.succ_pos _
  | object members =>
    cases members with
    | nil => exact Nat.succ_pos _
    | cons name value members => exact Nat.succ_pos _

mutual

theorem parseValue_render (json : Json) (plain : json.Plain) (fuel : Nat) (enough : (render json).length ≤ fuel)
    (rest : List UInt8) : parseValue fuel (render json ++ rest) = some (json, rest) := by
  obtain ⟨fuel, rfl⟩ := Nat.exists_eq_add_of_lt (Nat.lt_of_lt_of_le (length_render_pos json) enough)
  rw [Nat.zero_add]
  cases json with
  | string text =>
    unfold Plain at plain
    simp only [render, renderString, List.cons_append, List.append_assoc, List.nil_append, parseValue, if_true,
      parseText_string plain, Option.map_some]
  | object members =>
    unfold Plain at plain
    unfold render at enough ⊢
    cases members with
    | nil => rfl
    | cons name value members =>
      have read := parseMembers_render (.cons name value members) plain nofun fuel openBrace
        (by simpa only [Nat.zero_add] using enough) rest
      simp only [renderMembers, renderString, List.cons_append, List.tail_cons] at read ⊢
      have opens : quote ≠ closeBrace := by decide
      rw [parseValue, if_neg (by decide), if_pos rfl]
      simp only [List.head?_cons, Option.some.injEq, opens, if_false, read, Option.map_some]

theorem parseMembers_render (members : JsonMembers) (plain : PlainMembers members) (listed : members ≠ .nil)
    (fuel : Nat) (sep : UInt8) (enough : (renderMembers sep members).length ≤ fuel + 1) (rest : List UInt8) :
    parseMembers fuel ((renderMembers sep members).tail ++ rest) = some (members, rest) := by
  cases members with
  | nil => exact absurd rfl listed
  | cons name value members =>
    unfold PlainMembers at plain
    obtain ⟨name_plain, value_plain, members_plain⟩ := plain
    simp only [renderMembers, renderString, List.length_cons, List.length_append, List.length_nil] at enough
    obtain ⟨fuel, rfl⟩ : ∃ less, fuel = less + 1 := ⟨fuel - 1, by omega⟩
    have value_read := parseValue_render value value_plain fuel (by omega) (renderMembers comma members ++ rest)
    simp only [renderMembers, renderString, List.cons_append, List.tail_cons, List.append_assoc, List.nil_append]
    rw [parseMembers, if_neg (by simp), parseText_string name_plain]
    dsimp only
    rw [if_neg (by simp), List.tail_cons, value_read]
    dsimp only
    cases members with
    | nil => rfl
    | cons name' value' members' =>
      have members_read := parseMembers_render (.cons name' value' members') members_plain nofun fuel comma
        (by omega) rest
      simp only [renderMembers, renderString, List.cons_append, List.tail_cons] at members_read ⊢
      have goes_on : comma ≠ closeBrace := by decide
      simp only [List.head?_cons, Option.some.injEq, goes_on, if_false, if_true, members_read, Option.map_some]

end

/-- What is rendered reads back. -/
theorem parse_render (json : Json) (plain : json.Plain) : parse (render json) = some json := by
  have read := parseValue_render json plain ((render json).length + 1) (Nat.le_succ _) []
  rw [List.append_nil] at read
  rw [parse, read]

end Json

end RubyOlm

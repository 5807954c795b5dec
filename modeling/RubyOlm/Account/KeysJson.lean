import RubyOlm.Account
import RubyOlm.Theory.Json

/-!
# The one-time keys as JSON

The text that `get_one_time_keys_json` writes is an object with one member for every key that has not been
published, and it is as long as `get_one_time_keys_json_length` says.
-/

namespace RubyOlm

/-! ### Base64 in JSON -/

theorem plain_encodeDigit {value : Nat} (digit : value < 64) : Json.plainChar (encodeDigit value) := by
  have all : ∀ i : Fin 64, Json.plainChar (encodeDigit i) := by decide
  exact all ⟨value, digit⟩

theorem plain_encodeBase64 (input : Bytes) : ∀ char ∈ encodeBase64 input, Json.plainChar char := by
  induction input using encodeBase64.induct with
  | case1 a b c rest ih =>
    have := a.toNat_lt; have := b.toNat_lt; have := c.toNat_lt
    simp only [encodeBase64, join_byte, and_sixBits, Nat.shiftRight_eq_div_pow, List.forall_mem_cons]
    exact ⟨plain_encodeDigit (by omega), plain_encodeDigit (by omega), plain_encodeDigit (by omega),
      plain_encodeDigit (by omega), ih⟩
  | case2 a b =>
    have := a.toNat_lt; have := b.toNat_lt
    simp only [encodeBase64, join_byte, and_sixBits, Nat.shiftRight_eq_div_pow, Nat.shiftLeft_eq _ 2,
      List.forall_mem_cons]
    exact ⟨plain_encodeDigit (by omega), plain_encodeDigit (by omega), plain_encodeDigit (by omega), List.forall_mem_nil _⟩
  | case3 a =>
    have := a.toNat_lt
    simp only [encodeBase64, and_sixBits, Nat.shiftRight_eq_div_pow, Nat.shiftLeft_eq _ 4, List.forall_mem_cons]
    exact ⟨plain_encodeDigit (by omega), plain_encodeDigit (by omega), List.forall_mem_nil _⟩
  | case4 => exact List.forall_mem_nil _

theorem encodeBase64_inj {a b : Bytes} (same : encodeBase64 a = encodeBase64 b) : a = b := by
  rw [← decode_encodeBase64 a, same, decode_encodeBase64]

namespace Account

/-- The name of a key in the object: its id. -/
def idText (key : OneTimeKey) : Bytes := encodeBase64 (bigEndian key.id)

def keyMembers : List OneTimeKey → JsonMembers
  | [] => .nil
  | key :: keys => .cons (idText key) (.string (encodeBase64 key.key.publicKey.val)) (keyMembers keys)

def keysObject (keys : List OneTimeKey) : Json :=
  .object (.cons (ascii "curve25519") (.object (keyMembers keys)) .nil)

theorem plain_keyMembers (keys : List OneTimeKey) : Json.PlainMembers (keyMembers keys) := by
  induction keys with
  | nil => exact trivial
  | cons key keys ih => exact ⟨plain_encodeBase64 _, plain_encodeBase64 _, ih⟩

theorem plain_keysObject (keys : List OneTimeKey) : (keysObject keys).Plain := by
  have name : (ascii "curve25519").all Json.plainChar := rfl
  exact ⟨List.all_eq_true.mp name, plain_keyMembers keys, trivial⟩

theorem render_keyMembers_cons (sep : UInt8) (key : OneTimeKey) (keys : List OneTimeKey) :
    Json.renderMembers sep (keyMembers (key :: keys)) =
      oneTimeKeyJson sep key ++ Json.renderMembers Json.comma (keyMembers keys) := by
  simp [keyMembers, Json.renderMembers, Json.renderString, Json.render, oneTimeKeyJson, idText, Json.quote, Json.colon]

/-! ### The two loops -/

/-- What the writing loop and the braces after it make of the keys. -/
theorem foldl_writeKey (keys : List OneTimeKey) (json : Bytes) (sep : UInt8) :
    let done := keys.foldl writeKey (json, sep)
    (if done.2 ≠ 0x2C then done.1 ++ [done.2] else done.1) ++ [0x7D] =
      json ++ Json.renderMembers sep (keyMembers (keys.filter fun key => !key.published)) := by
  induction keys generalizing json sep with
  | nil =>
    simp only [List.foldl_nil, List.filter_nil, keyMembers, Json.renderMembers, Json.comma, Json.closeBrace]
    by_cases some : sep = 0x2C
    · simp only [some, ne_eq, not_true_eq_false, if_false, if_true, List.nil_append]
    · simp only [some, ne_eq, not_false_eq_true, if_false, if_true, List.append_assoc]
  | cons key keys ih =>
    rw [List.foldl_cons, writeKey]
    by_cases published : key.published
    · rw [if_pos published, List.filter_cons_of_neg (by simpa using published)]
      exact ih json sep
    · rw [if_neg published, List.filter_cons_of_pos (by simpa using published), render_keyMembers_cons,
        ← List.append_assoc]
      exact ih _ _

theorem length_oneTimeKeyJson (sep : UInt8) (key : OneTimeKey) :
    (oneTimeKeyJson sep key).length = 2 + encodeBase64Length 4 + 3 + encodeBase64Length 32 + 1 := by
  simp only [oneTimeKeyJson, List.length_append, List.length_cons, List.length_nil, length_encodeBase64,
    length_bigEndian, Block.length_val]

/-- The two loops keep step. -/
theorem foldl_countKey (keys : List OneTimeKey) (json : Bytes) (sep : UInt8) (length : Nat) (isEmpty : Bool)
    (same : isEmpty = decide (sep ≠ 0x2C)) :
    let done := keys.foldl writeKey (json, sep)
    let counted := keys.foldl countKey (length, isEmpty)
    done.1.length + length = json.length + counted.1 ∧ counted.2 = decide (done.2 ≠ 0x2C) := by
  induction keys generalizing json sep length isEmpty with
  | nil => exact ⟨rfl, same⟩
  | cons key keys ih =>
    rw [List.foldl_cons, List.foldl_cons, writeKey, countKey]
    by_cases published : key.published
    · rw [if_pos published, if_pos published]
      exact ih json sep length isEmpty same
    · rw [if_neg published, if_neg published]
      obtain ⟨lengths, empty⟩ := ih (json ++ oneTimeKeyJson sep key) 0x2C
        (length + 2 + encodeBase64Length 4 + 3 + encodeBase64Length 32 + 1) false rfl
      rw [List.length_append, length_oneTimeKeyJson] at lengths
      refine ⟨?_, empty⟩
      dsimp only
      omega

/-- The text, but for its last brace. -/
theorem render_keysObject (keys : List OneTimeKey) :
    (keysObject keys).render =
      [0x7B] ++ keyJsonCurve25519 ++ Json.renderMembers Json.openBrace (keyMembers keys) ++ [0x7D] := by
  have name : keyJsonCurve25519 = Json.renderString (ascii "curve25519") ++ [Json.colon] := rfl
  rw [name]
  simp [keysObject, Json.render, Json.renderMembers, Json.openBrace, Json.closeBrace]

/-- What is written, if the buffer is large enough. -/
theorem getOneTimeKeysJson_eq (account : Account) {jsonLength : Nat}
    (room : account.getOneTimeKeysJsonLength ≤ jsonLength) :
    account.getOneTimeKeysJson jsonLength =
      (account, some (keysObject (account.oneTimeKeys.toList.filter fun key => !key.published)).render) := by
  have written := foldl_writeKey account.oneTimeKeys.toList ([0x7B] ++ keyJsonCurve25519) 0x7B
  unfold getOneTimeKeysJson
  rw [if_neg (Nat.not_lt.mpr room), render_keysObject]
  dsimp only at written ⊢
  rw [Json.openBrace, ← written, List.append_assoc]
  rfl

/-- The length that is announced is that of the text. -/
theorem length_keysObject (account : Account) :
    (keysObject (account.oneTimeKeys.toList.filter fun key => !key.published)).render.length =
      account.getOneTimeKeysJsonLength := by
  have written := foldl_writeKey account.oneTimeKeys.toList ([0x7B] ++ keyJsonCurve25519) 0x7B
  obtain ⟨lengths, empty⟩ := foldl_countKey account.oneTimeKeys.toList ([0x7B] ++ keyJsonCurve25519) 0x7B 0 true rfl
  unfold getOneTimeKeysJsonLength
  rw [render_keysObject, Json.openBrace, List.length_append]
  dsimp only at written lengths empty ⊢
  rw [← written, empty]
  have first : ([0x7B] ++ keyJsonCurve25519).length = 1 + keyJsonCurve25519.length := by
    rw [List.length_append]
    rfl
  by_cases some : (account.oneTimeKeys.toList.foldl writeKey ([0x7B] ++ keyJsonCurve25519, 0x7B)).2 = 0x2C
  · simp only [some, ne_eq, not_true_eq_false, if_false, decide_false, List.length_append, List.length_cons,
      List.length_nil, Bool.false_eq_true]
    omega
  · simp only [some, ne_eq, not_false_eq_true, if_true, decide_true, List.length_append, List.length_cons,
      List.length_nil]
    omega

end Account

end RubyOlm

import RubyOlm.Group.Inbound

/-!
# Unpickling group sessions

Each reader that runs out of bytes returns the end of the body, and the only check is that the last
one stopped there. So a body is accepted when its version is known and it is not too long, however
much of it is missing after the version.
-/

namespace RubyOlm

/-! ### What a reader leaves -/

/-- A reader skips its field, and skipping past the end leaves nothing. -/
theorem unpickleBytes_rest {n : Nat} (rest : Bytes) (bytes : Block n) :
    (unpickleBytes rest bytes).1 = rest.drop n := by
  unfold unpickleBytes
  split
  · rename_i short
    exact (List.drop_of_length_le (by omega)).symm
  · rfl

theorem unpickleUint32_rest (rest : Bytes) : (unpickleUint32 rest).1 = rest.drop 4 := by
  rw [unpickleUint32]
  split
  · rename_i short
    exact (List.drop_of_length_le (by omega)).symm
  · rfl

theorem unpickleBool_rest (rest : Bytes) (value : Bool) : (unpickleBool rest value).1 = rest.drop 1 := by
  cases rest <;> rfl

theorem Megolm.unpickle_rest (rest : Bytes) (megolm : Megolm (Block 32)) :
    (Megolm.unpickle rest megolm).1 = rest.drop 132 := by
  unfold Megolm.unpickle
  dsimp only
  rw [unpickleUint32_rest, unpickleBytes_rest, List.drop_drop]

theorem Ed25519KeyPair.unpickle_rest (rest : Bytes) (value : Ed25519KeyPair) :
    (Ed25519KeyPair.unpickle rest value).1 = rest.drop 96 := by
  unfold Ed25519KeyPair.unpickle
  dsimp only
  rw [unpickleBytes_rest, unpickleBytes_rest, List.drop_drop]

/-! ### Bodies with every field -/

def bodyVersion (body : Bytes) : UInt32 := (unpickleUint32 body).2

theorem bodyVersion_bigEndian (version : UInt32) (rest : Bytes) :
    bodyVersion (bigEndian version ++ rest) = version := by
  rw [bodyVersion, unpickleUint32_append]

theorem bigEndian_loadBigEndian {bytes : Bytes} (four : bytes.length = 4) :
    bigEndian (loadBigEndian bytes) = bytes := by
  obtain ⟨a, b, c, d, rfl⟩ := List.length_eq_four.mp four
  have byte (value : UInt32) (byte : UInt8) (same : value.toNat % 256 = byte.toNat) : value.toUInt8 = byte :=
    UInt8.toNat_inj.mp (by rw [UInt32.toNat_toUInt8, same])
  have value : (loadBigEndian [a, b, c, d]).toNat =
      ((a.toNat * 256 + b.toNat) * 256 + c.toNat) * 256 + d.toNat := by
    have := a.toNat_lt; have := b.toNat_lt; have := c.toNat_lt
    simp only [loadBigEndian, List.foldl_cons, List.foldl_nil, toNat_shift_or, UInt32.toNat_zero]
    omega
  have := a.toNat_lt; have := b.toNat_lt; have := c.toNat_lt; have := d.toNat_lt
  rw [bigEndian, byte _ a, byte _ b, byte _ c, byte _ d]
  all_goals
    simp only [UInt32.toNat_shiftRight, value, Nat.shiftRight_eq_div_pow, UInt32.toNat_ofNat, Nat.reduceMod,
      Nat.reducePow]
    omega

theorem bigEndian_bodyVersion {body : Bytes} (long : 4 ≤ body.length) :
    body.take 4 = bigEndian (bodyVersion body) := by
  rw [bodyVersion, unpickleUint32, if_neg (by omega),
    bigEndian_loadBigEndian (by rw [List.length_take]; omega)]

@[simp] theorem Megolm.length_pickle (megolm : Megolm (Block 32)) : megolm.pickle.length = 132 := by
  simp [Megolm.pickle]

@[simp] theorem Ed25519KeyPair.length_pickle (value : Ed25519KeyPair) : value.pickle.length = 96 := by
  simp [Ed25519KeyPair.pickle]

theorem take_drop_append (bytes : Bytes) (start length : Nat) :
    (bytes.drop start).take length ++ bytes.drop (start + length) = bytes.drop start := by
  rw [← List.drop_drop, List.take_append_drop]

theorem Megolm.getData_init (data : Block 128) (counter : UInt32) : (Megolm.init data counter).getData = data := by
  have long := data.property
  have part (i : Fin 4) : (dataPart data i).val = (data.val.drop (32 * i)).take 32 :=
    Aes.load_take (by rw [List.length_drop]; omega)
  have first : data.val.take 32 ++ data.val.drop 32 = data.val := List.take_append_drop _ _
  have second : (data.val.drop 32).take 32 ++ data.val.drop 64 = data.val.drop 32 := take_drop_append _ 32 32
  have third : (data.val.drop 64).take 32 ++ data.val.drop 96 = data.val.drop 64 := take_drop_append _ 64 32
  have fourth : (data.val.drop 96).take 32 = data.val.drop 96 :=
    List.take_of_length_le (by rw [List.length_drop]; omega)
  apply Subtype.ext
  show (dataPart data 0).val ++ (dataPart data 1).val ++ (dataPart data 2).val ++ (dataPart data 3).val = data.val
  rw [part, part, part, part]
  show data.val.take 32 ++ (data.val.drop 32).take 32 ++ (data.val.drop 64).take 32 ++
    (data.val.drop 96).take 32 = data.val
  rw [fourth, List.append_assoc, third, List.append_assoc, second, first]

theorem Megolm.exists_pickle (bytes : Bytes) (length : bytes.length = 132) :
    ∃ megolm, Megolm.pickle megolm = bytes := by
  refine ⟨Megolm.init (Block.load 128 bytes) (loadBigEndian (bytes.drop 128)), ?_⟩
  rw [Megolm.pickle, Megolm.getData_init, Aes.load_take (by omega)]
  show bytes.take 128 ++ bigEndian (loadBigEndian (bytes.drop 128)) = bytes
  rw [bigEndian_loadBigEndian (by rw [List.length_drop]; omega), List.take_append_drop]

theorem Ed25519KeyPair.exists_pickle (bytes : Bytes) (length : bytes.length = 96) :
    ∃ value, Ed25519KeyPair.pickle value = bytes :=
  ⟨⟨⟨bytes.take 32, by rw [List.length_take]; omega⟩, ⟨bytes.drop 32, by rw [List.length_drop]; omega⟩⟩,
    List.take_append_drop 32 bytes⟩

theorem isSome_guarded {State Result : Type} {refuse : Prop} [Decidable refuse] (failed : State)
    (result : State × Option Result) :
    (if refuse then (failed, none) else result).2.isSome ↔ ¬ refuse ∧ result.2.isSome := by
  by_cases refused : refuse
  · rw [if_pos refused]
    exact ⟨fun none => absurd none Bool.false_ne_true, fun passed => absurd refused passed.1⟩
  · rw [if_neg refused]
    exact ⟨fun some => ⟨refused, some⟩, fun passed => passed.2⟩

theorem isSome_of_body {State : Type} {input : Except OlmErrorCode Bytes} (failed : OlmErrorCode → State)
    (read : Bytes → State × Option Unit) (length : Nat) {Accepted : Bytes → Prop}
    (reads : ∀ body, (read body).2.isSome ↔ Accepted body) :
    (match input with
      | .error error => (failed error, none)
      | .ok body => ((read body).1, (read body).2.map fun _ => length)).2.isSome ↔
      ∃ body, input = .ok body ∧ Accepted body := by
  cases input with
  | error error =>
    constructor
    · intro none
      cases none
    · rintro ⟨body, impossible, -⟩
      cases impossible
  | ok body =>
    dsimp only
    rw [Option.isSome_map, reads]
    constructor
    · intro accepted
      exact ⟨body, rfl, accepted⟩
    · rintro ⟨body', same, accepted⟩
      obtain rfl := Except.ok.inj same
      exact accepted

/-! ### Inbound sessions -/

namespace InboundGroupSession

/-- A body with all the fields of its version; in version 2 the last one is a flag byte. -/
def CompleteBody (body : Bytes) : Prop :=
  ∃ (version : UInt32) (initialRatchet latestRatchet : Megolm (Block 32)) (signingKey : Block 32) (flag : Bytes),
    body = bigEndian version ++ initialRatchet.pickle ++ latestRatchet.pickle ++ signingKey.val ++ flag ∧
      (version = 1 ∧ flag.length = 0 ∨ version = 2 ∧ flag.length = 1)

def bodyLength (version : UInt32) : Nat := if version = 1 then 300 else 301

/-- A body of a known version that ends before its last field does. -/
def Truncated (body : Bytes) : Prop :=
  (bodyVersion body = 1 ∨ bodyVersion body = 2) ∧ body.length < bodyLength (bodyVersion body)

theorem completeBody_iff (body : Bytes) :
    CompleteBody body ↔
      (bodyVersion body = 1 ∨ bodyVersion body = 2) ∧ body.length = bodyLength (bodyVersion body) := by
  constructor
  · rintro ⟨version, initialRatchet, latestRatchet, signingKey, flag, rfl, known⟩
    simp only [List.append_assoc, bodyVersion_bigEndian, bodyLength, List.length_append, length_bigEndian,
      Megolm.length_pickle, Block.length_val]
    rcases known with ⟨rfl, none⟩ | ⟨rfl, one⟩
    · exact ⟨Or.inl rfl, by rw [none]; rfl⟩
    · exact ⟨Or.inr rfl, by rw [one]; rfl⟩
  · rintro ⟨known, length⟩
    have long : 300 ≤ body.length := by
      rw [length, bodyLength]
      split <;> omega
    have version := bigEndian_bodyVersion (show 4 ≤ body.length by omega)
    have first : (body.drop 4).take 132 ++ body.drop 136 = body.drop 4 := take_drop_append _ 4 132
    have second : (body.drop 136).take 132 ++ body.drop 268 = body.drop 136 := take_drop_append _ 136 132
    have third : (body.drop 268).take 32 ++ body.drop 300 = body.drop 268 := take_drop_append _ 268 32
    obtain ⟨initialRatchet, initial⟩ := Megolm.exists_pickle ((body.drop 4).take 132)
      (by rw [List.length_take, List.length_drop]; omega)
    obtain ⟨latestRatchet, latest⟩ := Megolm.exists_pickle ((body.drop 136).take 132)
      (by rw [List.length_take, List.length_drop]; omega)
    refine ⟨bodyVersion body, initialRatchet, latestRatchet,
      ⟨(body.drop 268).take 32, by rw [List.length_take, List.length_drop]; omega⟩, body.drop 300, ?_, ?_⟩
    · rw [← version, initial, latest, List.append_assoc, third, List.append_assoc, second,
        List.append_assoc, first, List.take_append_drop]
    · rw [List.length_drop, length]
      rcases known with one | two
      · exact Or.inl ⟨one, by rw [one]; rfl⟩
      · exact Or.inr ⟨two, by rw [two]; rfl⟩

theorem known_version_iff (version : UInt32) :
    ¬ (version < 1 ∨ version > pickleVersion) ↔ version = 1 ∨ version = 2 := by
  rw [not_or, UInt32.not_lt, gt_iff_lt, UInt32.not_lt, UInt32.le_iff_toNat_le, UInt32.le_iff_toNat_le,
    ← UInt32.toNat_inj, ← UInt32.toNat_inj]
  show 1 ≤ version.toNat ∧ version.toNat ≤ 2 ↔ version.toNat = 1 ∨ version.toNat = 2
  omega

theorem unpickleBody_isSome_iff (session : InboundGroupSession) (body : Bytes) :
    (session.unpickleBody body).2.isSome ↔
      (bodyVersion body = 1 ∨ bodyVersion body = 2) ∧ body.length ≤ bodyLength (bodyVersion body) := by
  have rest : (if bodyVersion body = 1 then (body.drop 300, true)
      else unpickleBool (body.drop 300) session.signingKeyVerified).1 =
      body.drop (bodyLength (bodyVersion body)) := by
    unfold bodyLength
    split
    · rfl
    · rw [unpickleBool_rest, List.drop_drop]
  rw [← known_version_iff, unpickleBody]
  dsimp only
  rw [isSome_guarded, isSome_guarded, unpickleBytes_rest, Megolm.unpickle_rest, Megolm.unpickle_rest,
    unpickleUint32_rest, List.drop_drop, List.drop_drop, List.drop_drop]
  rw [show (unpickleUint32 body).2 = bodyVersion body from rfl, rest, not_not, List.drop_eq_nil_iff]
  exact ⟨fun accepted => ⟨accepted.1, accepted.2.1⟩, fun accepted => ⟨accepted.1, accepted.2, rfl⟩⟩

theorem unpickle_isSome_iff (crypto : Crypto) (session : InboundGroupSession) (key pickled : Bytes) :
    (session.unpickle crypto key pickled).2.isSome ↔
      ∃ body, encInput crypto key pickled = .ok body ∧ (CompleteBody body ∨ Truncated body) := by
  refine isSome_of_body (fun error => { session with lastError := error }) session.unpickleBody
    pickled.length fun body => ?_
  rw [unpickleBody_isSome_iff, completeBody_iff, Truncated, ← and_or_left, Nat.le_iff_lt_or_eq,
    @or_comm (body.length < _)]

theorem Truncated.not_complete {body : Bytes} (truncated : Truncated body) : ¬ CompleteBody body :=
  fun complete => Nat.ne_of_lt truncated.2 ((completeBody_iff body).mp complete).2

end InboundGroupSession

/-! ### Outbound sessions -/

namespace OutboundGroupSession

def CompleteBody (body : Bytes) : Prop :=
  ∃ (ratchet : Megolm (Block 32)) (signingKey : Ed25519KeyPair),
    body = bigEndian 1 ++ ratchet.pickle ++ signingKey.pickle

def bodyLength : Nat := 232

def Truncated (body : Bytes) : Prop := bodyVersion body = 1 ∧ body.length < bodyLength

theorem completeBody_iff (body : Bytes) :
    CompleteBody body ↔ bodyVersion body = 1 ∧ body.length = bodyLength := by
  constructor
  · rintro ⟨ratchet, signingKey, rfl⟩
    rw [List.append_assoc, bodyVersion_bigEndian]
    rw [List.length_append, List.length_append, length_bigEndian, Megolm.length_pickle,
      Ed25519KeyPair.length_pickle]
    exact ⟨rfl, rfl⟩
  · rintro ⟨known, length⟩
    unfold bodyLength at length
    have version := bigEndian_bodyVersion (show 4 ≤ body.length by omega)
    have first : (body.drop 4).take 132 ++ body.drop 136 = body.drop 4 := take_drop_append _ 4 132
    obtain ⟨ratchet, initial⟩ := Megolm.exists_pickle ((body.drop 4).take 132)
      (by rw [List.length_take, List.length_drop]; omega)
    obtain ⟨signingKey, key⟩ := Ed25519KeyPair.exists_pickle (body.drop 136)
      (by rw [List.length_drop]; omega)
    refine ⟨ratchet, signingKey, ?_⟩
    rw [← known, ← version, initial, key, List.append_assoc, first, List.take_append_drop]

theorem unpickleBody_isSome_iff (session : OutboundGroupSession) (body : Bytes) :
    (session.unpickleBody body).2.isSome ↔ bodyVersion body = 1 ∧ body.length ≤ bodyLength := by
  unfold unpickleBody
  dsimp only
  rw [isSome_guarded, isSome_guarded, Ed25519KeyPair.unpickle_rest, Megolm.unpickle_rest, unpickleUint32_rest,
    List.drop_drop, List.drop_drop]
  rw [show (unpickleUint32 body).2 = bodyVersion body from rfl, not_not, not_not, List.drop_eq_nil_iff]
  exact ⟨fun accepted => ⟨accepted.1, accepted.2.1⟩, fun accepted => ⟨accepted.1, accepted.2, rfl⟩⟩

theorem unpickle_isSome_iff (crypto : Crypto) (session : OutboundGroupSession) (key pickled : Bytes) :
    (session.unpickle crypto key pickled).2.isSome ↔
      ∃ body, encInput crypto key pickled = .ok body ∧ (CompleteBody body ∨ Truncated body) := by
  refine isSome_of_body (fun error => { session with lastError := error }) session.unpickleBody
    pickled.length fun body => ?_
  rw [unpickleBody_isSome_iff, completeBody_iff, Truncated, ← and_or_left, Nat.le_iff_lt_or_eq,
    @or_comm (body.length < _)]

theorem Truncated.not_complete {body : Bytes} (truncated : Truncated body) : ¬ CompleteBody body :=
  fun complete => Nat.ne_of_lt truncated.2 ((completeBody_iff body).mp complete).2

end OutboundGroupSession

/-! ### Acceptance is completeness, but for truncated bodies -/

/-- A reader that accepts exactly the complete and the truncated bodies is right about the bodies that
are not truncated. -/
theorem accepts_complete_iff {accepted : Prop} {Complete Truncated : Bytes → Prop}
    {input : Except OlmErrorCode Bytes}
    (accepts : accepted ↔ ∃ body, input = .ok body ∧ (Complete body ∨ Truncated body))
    (apart : ∀ body, Truncated body → ¬ Complete body) :
    (accepted → ∃ body, input = .ok body ∧ Complete body) ↔ ∀ body, input = .ok body → ¬ Truncated body := by
  constructor
  · rintro sound body rfl truncated
    obtain ⟨body', same, complete⟩ := sound (accepts.mpr ⟨body, rfl, Or.inr truncated⟩)
    obtain rfl := Except.ok.inj same
    exact apart body truncated complete
  · rintro whole accepted
    obtain ⟨body, rfl, complete | truncated⟩ := accepts.mp accepted
    · exact ⟨body, rfl, complete⟩
    · exact absurd truncated (whole body rfl)

/-- For every session and every pickle: success means a complete body exactly when the body is not a
truncated one. -/
theorem unpickled_complete_iff (crypto : Crypto) (inbound : InboundGroupSession)
    (outbound : OutboundGroupSession) (key pickled : Bytes) :
    (((inbound.unpickle crypto key pickled).2.isSome →
        ∃ body, encInput crypto key pickled = .ok body ∧ InboundGroupSession.CompleteBody body) ↔
      ∀ body, encInput crypto key pickled = .ok body → ¬ InboundGroupSession.Truncated body) ∧
    (((outbound.unpickle crypto key pickled).2.isSome →
        ∃ body, encInput crypto key pickled = .ok body ∧ OutboundGroupSession.CompleteBody body) ↔
      ∀ body, encInput crypto key pickled = .ok body → ¬ OutboundGroupSession.Truncated body) :=
  ⟨accepts_complete_iff (inbound.unpickle_isSome_iff crypto key pickled)
      fun _ => InboundGroupSession.Truncated.not_complete,
    accepts_complete_iff (outbound.unpickle_isSome_iff crypto key pickled)
      fun _ => OutboundGroupSession.Truncated.not_complete⟩

/-- The pickle of the four bytes 0, 0, 0, 2 is accepted as an inbound session. -/
theorem unpickled_from_version_alone :
    ¬ ∀ (crypto : Crypto) (session : InboundGroupSession) (key pickled : Bytes),
      (session.unpickle crypto key pickled).2.isSome →
        ∃ body, encInput crypto key pickled = .ok body ∧ InboundGroupSession.CompleteBody body := by
  intro sound
  have body : encInput Crypto.plain [] (ascii "AAAAAgwMDAwMDAwMDAwMDAEQAAAAAgwM") = .ok [0, 0, 0, 2] := by
    rfl
  have version : bodyVersion [0, 0, 0, 2] = 2 := by decide
  have truncated : InboundGroupSession.Truncated [0, 0, 0, 2] :=
    ⟨Or.inr version, by rw [version]; decide⟩
  obtain ⟨body', same, complete⟩ := sound Crypto.plain .clear [] _
    ((InboundGroupSession.unpickle_isSome_iff _ _ _ _).mpr ⟨_, body, Or.inr truncated⟩)
  rw [body] at same
  obtain rfl := Except.ok.inj same
  exact truncated.not_complete complete

end RubyOlm

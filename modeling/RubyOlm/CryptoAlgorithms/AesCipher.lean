import Mathlib.Algebra.BigOperators.Fin
import Mathlib.Data.List.GetD
import RubyOlm.Crypto
import RubyOlm.CryptoAlgorithms.Aes
import RubyOlm.Theory.Rijndael

/-!
# AES is Rijndael

The tables of `aes.c` hold what the arithmetic of the field gives, and its functions on words and bytes are the
transformations of the standard.
-/

namespace RubyOlm

open Rijndael (State Word)

/-! ### Tables -/

/-- The coefficient that a column of `gf_mul` is for. -/
def gfCoefficient (column : Nat) : Gf256 := ⟨[0x02, 0x03, 0x09, 0x0b, 0x0d, 0x0e].getD column 0⟩

theorem gfMul_bytes : ∀ n < 256, ∀ column < 6,
    (⟨gfMulAt (UInt8.ofNat n) column⟩ : Gf256) = ⟨UInt8.ofNat n⟩ * gfCoefficient column := by decide +kernel

theorem gfMulAt_eq (byte : UInt8) {column : Nat} (below : column < 6) :
    (⟨gfMulAt byte column⟩ : Gf256) = gfCoefficient column * ⟨byte⟩ := by
  have here := gfMul_bytes byte.toNat byte.toNat_lt column below
  rw [UInt8.ofNat_toNat] at here
  rw [here, mul_comm]

theorem aesInvsbox_bytes : ∀ n < 256,
    substitute aesInvsbox (substitute aesSbox (UInt8.ofNat n)) = UInt8.ofNat n ∧
      substitute aesSbox (substitute aesInvsbox (UInt8.ofNat n)) = UInt8.ofNat n := by decide +kernel

/-- The two S-boxes are inverses of each other. -/
def aesBox : Equiv.Perm Gf256 where
  toFun a := ⟨substitute aesSbox a.byte⟩
  invFun a := ⟨substitute aesInvsbox a.byte⟩
  left_inv := Gf256.forall_of_bytes fun n below => congrArg Gf256.mk (aesInvsbox_bytes n below).1
  right_inv := Gf256.forall_of_bytes fun n below => congrArg Gf256.mk (aesInvsbox_bytes n below).2

theorem aesSbox_bytes : ∀ n < 256,
    let image : Gf256 := ⟨substitute aesSbox (UInt8.ofNat n)⟩
    Rijndael.affine (Rijndael.invAffine image) = image ∧
      if n = 0 then Rijndael.invAffine image = 0 else Rijndael.invAffine image * ⟨UInt8.ofNat n⟩ = 1 := by
  decide +kernel

/-- The S-box is the one of the standard. -/
theorem aesBox_eq (a : Gf256) : aesBox a = Rijndael.sBox a := by
  refine Gf256.forall_of_bytes (P := fun a => aesBox a = Rijndael.sBox a) ?_ a
  intro n below
  obtain ⟨same, inverse⟩ := aesSbox_bytes n below
  have box : aesBox ⟨UInt8.ofNat n⟩ = ⟨substitute aesSbox (UInt8.ofNat n)⟩ := rfl
  rw [box, ← same]
  by_cases zero : n = 0
  · rw [if_pos zero] at inverse
    subst zero
    rw [inverse]
    exact Rijndael.sBox_zero.symm
  · rw [if_neg zero, mul_comm] at inverse
    exact (Rijndael.sBox_of_mul_eq_one inverse).symm

/-! ### States -/

def AesColumn.vector (column : AesColumn) : Word := ![⟨column.row0⟩, ⟨column.row1⟩, ⟨column.row2⟩, ⟨column.row3⟩]

def AesState.columns (state : AesState) : Fin 4 → AesColumn :=
  ![state.column0, state.column1, state.column2, state.column3]

def AesState.matrix (state : AesState) : State := fun row column => (state.columns column).vector row

theorem AesState.matrix_injective {a b : AesState} (same : a.matrix = b.matrix) : a = b := by
  have byte (row column : Fin 4) := congrArg Gf256.byte (congrFun (congrFun same row) column)
  apply AesState.ext
  · exact AesColumn.ext (byte 0 0) (byte 1 0) (byte 2 0) (byte 3 0)
  · exact AesColumn.ext (byte 0 1) (byte 1 1) (byte 2 1) (byte 3 1)
  · exact AesColumn.ext (byte 0 2) (byte 1 2) (byte 2 2) (byte 3 2)
  · exact AesColumn.ext (byte 0 3) (byte 1 3) (byte 2 3) (byte 3 3)

theorem AesState.columns_map (f : AesColumn → AesColumn) (state : AesState) (column : Fin 4) :
    (state.map f).columns column = f (state.columns column) := by
  fin_cases column <;> rfl

theorem AesColumn.vector_map (f : UInt8 → UInt8) (column : AesColumn) (row : Fin 4) :
    (column.map f).vector row = ⟨f (column.vector row).byte⟩ := by
  fin_cases row <;> rfl

@[simp] theorem AesState.load_store (state : AesState) : AesState.load state.store = state := rfl

theorem bytes_loadColumn {block : Bytes} {pos : Nat} (within : pos + 4 ≤ block.length) :
    (loadColumn block pos).bytes = (block.drop pos).take 4 := by
  rw [List.drop_eq_getElem_cons (by omega), List.drop_eq_getElem_cons (by omega), List.drop_eq_getElem_cons (by omega),
    List.drop_eq_getElem_cons (by omega), AesColumn.bytes, loadColumn, List.getD_eq_getElem _ _ (by omega),
    List.getD_eq_getElem _ _ (by omega), List.getD_eq_getElem _ _ (by omega), List.getD_eq_getElem _ _ (by omega)]
  rfl

@[simp] theorem AesState.store_load (block : Block 16) : (AesState.load block).store = block := by
  apply Subtype.ext
  show (loadColumn block.val 0).bytes ++ (loadColumn block.val 4).bytes ++ (loadColumn block.val 8).bytes ++
    (loadColumn block.val 12).bytes = block.val
  have length := block.property
  rw [bytes_loadColumn (by omega), bytes_loadColumn (by omega), bytes_loadColumn (by omega),
    bytes_loadColumn (by omega), List.drop_zero, ← List.take_add, ← List.take_add, ← List.take_add,
    List.take_of_length_le (Nat.le_of_eq length)]

/-! ### Words -/

/-- The bytes of a word, the highest first. -/
def wordVector (value : UInt32) : Word :=
  ![⟨(value >>> 24).toUInt8⟩, ⟨(value >>> 16).toUInt8⟩, ⟨(value >>> 8).toUInt8⟩, ⟨value.toUInt8⟩]

theorem wordVector_word (a b c d : UInt8) : wordVector (word a b c d) = ![⟨a⟩, ⟨b⟩, ⟨c⟩, ⟨d⟩] := by
  have bytes := bigEndian_word a b c d
  simp only [bigEndian, List.cons.injEq, and_true] at bytes
  obtain ⟨first, second, third, fourth⟩ := bytes
  rw [wordVector, first, second, third, fourth]

theorem wordVector_xor (a b : UInt32) : wordVector (a ^^^ b) = wordVector a + wordVector b := by
  have shifted (shift : UInt32) : ((a ^^^ b) >>> shift).toUInt8 = (a >>> shift).toUInt8 ^^^ (b >>> shift).toUInt8 := by
    rw [UInt32.shiftRight_xor, UInt32.toUInt8_xor]
  funext row
  fin_cases row
  · exact Gf256.ext (shifted 24)
  · exact Gf256.ext (shifted 16)
  · exact Gf256.ext (shifted 8)
  · exact Gf256.ext (UInt32.toUInt8_xor a b)

theorem nibble_eq (value shift : UInt32) :
    ((value >>> shift) &&& 0x0000000F).toNat = value.toNat / 2 ^ (shift.toNat % 32) % 16 := by
  rw [UInt32.toNat_and, UInt32.toNat_shiftRight, Nat.shiftRight_eq_div_pow]
  exact Nat.and_two_pow_sub_one_eq_mod _ 4

theorem high_nibble (byte : UInt8) : (byte >>> 4).toNat = byte.toNat / 16 := by
  rw [UInt8.toNat_shiftRight, Nat.shiftRight_eq_div_pow]
  rfl

theorem low_nibble (byte : UInt8) : (byte &&& 0x0F).toNat = byte.toNat % 16 := by
  rw [UInt8.toNat_and]
  exact Nat.and_two_pow_sub_one_eq_mod _ 4

/-- The two nibbles are looked up at the places of the word's byte. -/
theorem subWord_word (a b c d : UInt8) : subWord (word a b c d) =
    word (substitute aesSbox a) (substitute aesSbox b) (substitute aesSbox c) (substitute aesSbox d) := by
  have ha := a.toNat_lt
  have hb := b.toNat_lt
  have hc := c.toNat_lt
  have hd := d.toNat_lt
  have byte (x : UInt8) (row column : UInt32)
      (high : (word a b c d).toNat / 2 ^ (row.toNat % 32) % 16 = x.toNat / 16)
      (low : (word a b c d).toNat / 2 ^ (column.toNat % 32) % 16 = x.toNat % 16) :
      (aesSbox.getD ((word a b c d >>> row) &&& 0x0000000F).toNat []).getD
        ((word a b c d >>> column) &&& 0x0000000F).toNat 0 = substitute aesSbox x := by
    rw [nibble_eq, nibble_eq, high, low, substitute, high_nibble, low_nibble]
  rw [toNat_word] at byte
  apply UInt32.toNat_inj.mp
  rw [subWord]
  dsimp only
  rw [byte d 4 0 (by simp; omega) (by simp; omega), byte c 12 8 (by simp; omega) (by simp; omega),
    byte b 20 16 (by simp; omega) (by simp; omega), byte a 28 24 (by simp; omega) (by simp; omega)]
  generalize substitute aesSbox a = a'
  generalize substitute aesSbox b = b'
  generalize substitute aesSbox c = c'
  generalize substitute aesSbox d = d'
  have ha' := a'.toNat_lt
  have hb' := b'.toNat_lt
  have hc' := c'.toNat_lt
  have hd' := d'.toNat_lt
  have first : (a'.toUInt32 <<< 24).toNat = a'.toNat * 2 ^ 24 := toNat_shiftLeft a' (by decide)
  have second : (b'.toUInt32 <<< 16).toNat = b'.toNat * 2 ^ 16 := toNat_shiftLeft b' (by decide)
  have third : (c'.toUInt32 <<< 8).toNat = c'.toNat * 2 ^ 8 := toNat_shiftLeft c' (by decide)
  rw [toNat_word, UInt32.toNat_add, UInt32.toNat_add, UInt32.toNat_add, first, second, third, UInt8.toNat_toUInt32]
  omega

theorem keRotword_word (a b c d : UInt8) : keRotword (word a b c d) = word b c d a := by
  have ha := a.toNat_lt
  have hb := b.toNat_lt
  have hc := c.toNat_lt
  have hd := d.toNat_lt
  have high : (word a b c d <<< 8).toNat = b.toNat * 2 ^ 24 + c.toNat * 2 ^ 16 + d.toNat * 2 ^ 8 := by
    rw [UInt32.toNat_shiftLeft, toNat_word, Nat.shiftLeft_eq]
    simp only [UInt32.toNat_ofNat, Nat.reduceMod, Nat.reducePow]
    omega
  have low : (word a b c d >>> 24).toNat = a.toNat := by
    rw [UInt32.toNat_shiftRight, toNat_word, Nat.shiftRight_eq_div_pow]
    simp only [UInt32.toNat_ofNat, Nat.reduceMod, Nat.reducePow]
    omega
  apply UInt32.toNat_inj.mp
  rw [keRotword, UInt32.toNat_or, high, low, or_eq_add 8 (by omega) (by omega), toNat_word]

theorem wordVector_subWord (value : UInt32) :
    wordVector (subWord value) = Rijndael.subWord aesBox (wordVector value) := by
  rw [← word_bigEndian value, subWord_word, wordVector_word, wordVector_word]
  funext row
  fin_cases row <;> rfl

theorem wordVector_keRotword (value : UInt32) : wordVector (keRotword value) = Rijndael.rotWord (wordVector value) := by
  rw [← word_bigEndian value, keRotword_word, wordVector_word, wordVector_word]
  funext row
  fin_cases row <;> rfl

/-- As many as the shortest key makes use of, and some more. -/
theorem wordVector_rcon : ∀ n < 15, wordVector (rcon.getD n 0) = Rijndael.rcon (n + 1) := by decide +kernel

/-! ### Transformations -/

theorem addSubkey_vector (column : AesColumn) (subkey : UInt32) :
    (addSubkey column subkey).vector = column.vector + wordVector subkey := by
  funext row
  fin_cases row <;> rfl

/-- The product of the matrix of rows of coefficients with a column. -/
theorem mulVec_four (matrix : State) (vector : Word) (row : Fin 4) : matrix.mulVec vector row =
    matrix row 0 * vector 0 + matrix row 1 * vector 1 + matrix row 2 * vector 2 + matrix row 3 * vector 3 := by
  simp only [Matrix.mulVec, dotProduct, Fin.sum_univ_four]

theorem mixColumn_vector (column : AesColumn) :
    (mixColumn column).vector = Rijndael.mixMatrix.mulVec column.vector := by
  have one (byte : UInt8) : (⟨byte⟩ : Gf256) = ⟨1⟩ * ⟨byte⟩ := (one_mul (⟨byte⟩ : Gf256)).symm
  have two (byte : UInt8) : (⟨gfMulAt byte 0⟩ : Gf256) = ⟨2⟩ * ⟨byte⟩ := gfMulAt_eq byte (by decide)
  have three (byte : UInt8) : (⟨gfMulAt byte 1⟩ : Gf256) = ⟨3⟩ * ⟨byte⟩ := gfMulAt_eq byte (by decide)
  obtain ⟨a, b, c, d⟩ := column
  funext row
  rw [mulVec_four]
  fin_cases row
  · show (⟨gfMulAt a 0⟩ + ⟨gfMulAt b 1⟩ + ⟨c⟩ + ⟨d⟩ : Gf256) = ⟨2⟩ * ⟨a⟩ + ⟨3⟩ * ⟨b⟩ + ⟨1⟩ * ⟨c⟩ + ⟨1⟩ * ⟨d⟩
    rw [two, three, ← one c, ← one d]
  · show (⟨a⟩ + ⟨gfMulAt b 0⟩ + ⟨gfMulAt c 1⟩ + ⟨d⟩ : Gf256) = ⟨1⟩ * ⟨a⟩ + ⟨2⟩ * ⟨b⟩ + ⟨3⟩ * ⟨c⟩ + ⟨1⟩ * ⟨d⟩
    rw [two, three, ← one a, ← one d]
  · show (⟨a⟩ + ⟨b⟩ + ⟨gfMulAt c 0⟩ + ⟨gfMulAt d 1⟩ : Gf256) = ⟨1⟩ * ⟨a⟩ + ⟨1⟩ * ⟨b⟩ + ⟨2⟩ * ⟨c⟩ + ⟨3⟩ * ⟨d⟩
    rw [two, three, ← one a, ← one b]
  · show (⟨gfMulAt a 1⟩ + ⟨b⟩ + ⟨c⟩ + ⟨gfMulAt d 0⟩ : Gf256) = ⟨3⟩ * ⟨a⟩ + ⟨1⟩ * ⟨b⟩ + ⟨1⟩ * ⟨c⟩ + ⟨2⟩ * ⟨d⟩
    rw [two, three, ← one b, ← one c]

theorem invMixColumn_vector (column : AesColumn) :
    (invMixColumn column).vector = Rijndael.invMixMatrix.mulVec column.vector := by
  have nine (byte : UInt8) : (⟨gfMulAt byte 2⟩ : Gf256) = ⟨9⟩ * ⟨byte⟩ := gfMulAt_eq byte (by decide)
  have eleven (byte : UInt8) : (⟨gfMulAt byte 3⟩ : Gf256) = ⟨11⟩ * ⟨byte⟩ := gfMulAt_eq byte (by decide)
  have thirteen (byte : UInt8) : (⟨gfMulAt byte 4⟩ : Gf256) = ⟨13⟩ * ⟨byte⟩ := gfMulAt_eq byte (by decide)
  have fourteen (byte : UInt8) : (⟨gfMulAt byte 5⟩ : Gf256) = ⟨14⟩ * ⟨byte⟩ := gfMulAt_eq byte (by decide)
  obtain ⟨a, b, c, d⟩ := column
  funext row
  rw [mulVec_four]
  fin_cases row
  · show (⟨gfMulAt a 5⟩ + ⟨gfMulAt b 3⟩ + ⟨gfMulAt c 4⟩ + ⟨gfMulAt d 2⟩ : Gf256) =
      ⟨14⟩ * ⟨a⟩ + ⟨11⟩ * ⟨b⟩ + ⟨13⟩ * ⟨c⟩ + ⟨9⟩ * ⟨d⟩
    rw [nine, eleven, thirteen, fourteen]
  · show (⟨gfMulAt a 2⟩ + ⟨gfMulAt b 5⟩ + ⟨gfMulAt c 3⟩ + ⟨gfMulAt d 4⟩ : Gf256) =
      ⟨9⟩ * ⟨a⟩ + ⟨14⟩ * ⟨b⟩ + ⟨11⟩ * ⟨c⟩ + ⟨13⟩ * ⟨d⟩
    rw [nine, eleven, thirteen, fourteen]
  · show (⟨gfMulAt a 4⟩ + ⟨gfMulAt b 2⟩ + ⟨gfMulAt c 5⟩ + ⟨gfMulAt d 3⟩ : Gf256) =
      ⟨13⟩ * ⟨a⟩ + ⟨9⟩ * ⟨b⟩ + ⟨14⟩ * ⟨c⟩ + ⟨11⟩ * ⟨d⟩
    rw [nine, eleven, thirteen, fourteen]
  · show (⟨gfMulAt a 3⟩ + ⟨gfMulAt b 4⟩ + ⟨gfMulAt c 2⟩ + ⟨gfMulAt d 5⟩ : Gf256) =
      ⟨11⟩ * ⟨a⟩ + ⟨13⟩ * ⟨b⟩ + ⟨9⟩ * ⟨c⟩ + ⟨14⟩ * ⟨d⟩
    rw [nine, eleven, thirteen, fourteen]

theorem mixColumns_matrix (state : AesState) : (mixColumns state).matrix = Rijndael.mixColumns state.matrix := by
  funext row column
  rw [AesState.matrix, mixColumns, AesState.columns_map, mixColumn_vector]
  rfl

theorem invMixColumns_matrix (state : AesState) :
    (invMixColumns state).matrix = Rijndael.mixColumns.symm state.matrix := by
  funext row column
  rw [AesState.matrix, invMixColumns, AesState.columns_map, invMixColumn_vector]
  rfl

theorem subBytes_matrix (state : AesState) : (subBytes state).matrix = Rijndael.subBytes aesBox state.matrix := by
  funext row column
  rw [AesState.matrix, subBytes, AesState.columns_map, AesColumn.vector_map]
  rfl

theorem invSubBytes_matrix (state : AesState) :
    (invSubBytes state).matrix = (Rijndael.subBytes aesBox).symm state.matrix := by
  funext row column
  rw [AesState.matrix, invSubBytes, AesState.columns_map, AesColumn.vector_map]
  rfl

theorem shiftRows_matrix (state : AesState) : (shiftRows state).matrix = Rijndael.shiftRows state.matrix := by
  funext row column
  fin_cases row <;> fin_cases column <;> rfl

theorem invShiftRows_matrix (state : AesState) :
    (invShiftRows state).matrix = Rijndael.shiftRows.symm state.matrix := by
  funext row column
  fin_cases row <;> fin_cases column <;> rfl

/-- The words of a schedule. -/
def scheduleWords (w : List UInt32) (i : Nat) : Word := wordVector (w.getD i 0)

theorem addRoundKey_matrix (w : List UInt32) (n : Nat) (state : AesState) :
    (addRoundKey w (4 * n) state).matrix =
      Rijndael.addRoundKey (Rijndael.roundKey (scheduleWords w) n) state.matrix := by
  funext row column
  fin_cases column
  · exact congrFun (addSubkey_vector state.column0 _) row
  · exact congrFun (addSubkey_vector state.column1 _) row
  · exact congrFun (addSubkey_vector state.column2 _) row
  · exact congrFun (addSubkey_vector state.column3 _) row

/-! ### Rounds -/

theorem encryptRounds_matrix (w : List UInt32) (keys : List Nat) (state : AesState) :
    (encryptRounds w (keys.map (4 * ·)) state).matrix =
      Rijndael.rounds aesBox (keys.map (Rijndael.roundKey (scheduleWords w))) state.matrix := by
  induction keys generalizing state with
  | nil => rfl
  | cons key keys ih =>
    have step := ih (addRoundKey w (4 * key) (mixColumns (shiftRows (subBytes state))))
    rw [addRoundKey_matrix, mixColumns_matrix, shiftRows_matrix, subBytes_matrix] at step
    exact step

theorem encryptLastRound_matrix (w : List UInt32) (key : Nat) (state : AesState) :
    (encryptLastRound w (4 * key) state).matrix =
      Rijndael.lastRound aesBox (Rijndael.roundKey (scheduleWords w) key) state.matrix := by
  rw [encryptLastRound, addRoundKey_matrix, shiftRows_matrix, subBytes_matrix]
  rfl

theorem decryptRounds_matrix (w : List UInt32) (keys : List Nat) (state : AesState) :
    (decryptRounds w (keys.map (4 * ·)) state).matrix =
      (keys.map (Rijndael.roundKey (scheduleWords w))).foldl
        (fun state key => Rijndael.inverseRound aesBox key state) state.matrix := by
  induction keys generalizing state with
  | nil => rfl
  | cons key keys ih =>
    have step := ih (invMixColumns (addRoundKey w (4 * key) (invSubBytes (invShiftRows state))))
    rw [invMixColumns_matrix, addRoundKey_matrix, invSubBytes_matrix, invShiftRows_matrix] at step
    exact step

/-- The rounds that `aes_encrypt` and `aes_decrypt` make, of a key size that both take for the same. -/
def aesRounds (keysize : Int) : Nat := if keysize = 128 then 10 else if keysize = 192 then 12 else 14

/-- `aes_encrypt` tells key sizes apart by equality, and `aes_decrypt` by order. -/
def Agreed (keysize : Int) : Prop := keysize = 128 ∨ keysize = 192 ∨ 192 < keysize

theorem encryptRounds_append (w : List UInt32) (offsets more : List Nat) (state : AesState) :
    encryptRounds w (offsets ++ more) state = encryptRounds w more (encryptRounds w offsets state) :=
  List.foldl_append

theorem decryptRounds_append (w : List UInt32) (offsets more : List Nat) (state : AesState) :
    decryptRounds w (offsets ++ more) state = decryptRounds w more (decryptRounds w offsets state) :=
  List.foldl_append

/-- The branches for the larger keys go on with the rounds. -/
theorem aesEncrypt_eq (block : Block 16) (w : List UInt32) (keysize : Int) :
    aesEncrypt block w keysize = (encryptLastRound w (4 * aesRounds keysize)
      (encryptRounds w ((List.range' 1 (aesRounds keysize - 1)).map (4 * ·))
        (addRoundKey w (4 * 0) (AesState.load block)))).store := by
  by_cases small : keysize = 128
  · rw [aesEncrypt, aesRounds, if_pos small, if_neg (not_not.mpr small)]
    have offsets : (List.range' 1 (10 - 1)).map (4 * ·) = [4, 8, 12, 16, 20, 24, 28, 32, 36] := rfl
    rw [offsets]
  · by_cases middle : keysize = 192
    · rw [aesEncrypt, aesRounds, if_neg small, if_pos middle, if_pos small, if_neg (not_not.mpr middle)]
      have offsets : (List.range' 1 (12 - 1)).map (4 * ·) = [4, 8, 12, 16, 20, 24, 28, 32, 36] ++ [40, 44] := rfl
      rw [offsets, encryptRounds_append]
    · rw [aesEncrypt, aesRounds, if_neg small, if_neg middle, if_pos small, if_pos middle]
      have offsets : (List.range' 1 (14 - 1)).map (4 * ·) =
          [4, 8, 12, 16, 20, 24, 28, 32, 36] ++ ([40, 44] ++ [48, 52]) := rfl
      rw [offsets, encryptRounds_append, encryptRounds_append]

theorem aesDecrypt_eq (block : Block 16) (w : List UInt32) {keysize : Int} (agreed : Agreed keysize) :
    aesDecrypt block w keysize = (addRoundKey w (4 * 0) (invSubBytes (invShiftRows
      (decryptRounds w ((List.range' 1 (aesRounds keysize - 1)).reverse.map (4 * ·))
        (addRoundKey w (4 * aesRounds keysize) (AesState.load block)))))).store := by
  rw [aesDecrypt, aesRounds]
  obtain small | middle | large := agreed
  · rw [if_pos small, if_neg (by omega : ¬keysize > 128)]
    have offsets : (List.range' 1 (10 - 1)).reverse.map (4 * ·) = [36, 32, 28, 24, 20, 16, 12, 8, 4] := rfl
    rw [offsets]
  · rw [if_neg (by omega : ¬keysize = 128), if_pos middle, if_pos (by omega : keysize > 128),
      if_neg (by omega : ¬keysize > 192)]
    have offsets : (List.range' 1 (12 - 1)).reverse.map (4 * ·) = [44, 40] ++ [36, 32, 28, 24, 20, 16, 12, 8, 4] := rfl
    rw [offsets, decryptRounds_append]
  · rw [if_neg (by omega : ¬keysize = 128), if_neg (by omega : ¬keysize = 192), if_pos (by omega : keysize > 128),
      if_pos large]
    have offsets : (List.range' 1 (14 - 1)).reverse.map (4 * ·) =
        [52, 48] ++ ([44, 40] ++ [36, 32, 28, 24, 20, 16, 12, 8, 4]) := rfl
    rw [offsets, decryptRounds_append, decryptRounds_append]

theorem aesEncrypt_matrix (block : Block 16) (w : List UInt32) (keysize : Int) :
    (AesState.load (aesEncrypt block w keysize)).matrix =
      Rijndael.scheduled aesBox (aesRounds keysize) (scheduleWords w) (AesState.load block).matrix := by
  rw [aesEncrypt_eq, AesState.load_store, encryptLastRound_matrix, encryptRounds_matrix, addRoundKey_matrix]
  rfl

theorem aesDecrypt_matrix (block : Block 16) (w : List UInt32) {keysize : Int} (agreed : Agreed keysize) :
    (AesState.load (aesDecrypt block w keysize)).matrix =
      (Rijndael.scheduled aesBox (aesRounds keysize) (scheduleWords w)).symm (AesState.load block).matrix := by
  rw [aesDecrypt_eq block w agreed, AesState.load_store, addRoundKey_matrix, invSubBytes_matrix, invShiftRows_matrix,
    decryptRounds_matrix, addRoundKey_matrix, Rijndael.scheduled, Rijndael.cipher_symm_apply, List.map_reverse]

theorem block_ext {a b : Block 16} (same : (AesState.load a).matrix = (AesState.load b).matrix) : a = b := by
  rw [← AesState.store_load a, ← AesState.store_load b, AesState.matrix_injective same]

theorem aesDecrypt_aesEncrypt (w : List UInt32) {keysize : Int} (agreed : Agreed keysize) (block : Block 16) :
    aesDecrypt (aesEncrypt block w keysize) w keysize = block := by
  apply block_ext
  rw [aesDecrypt_matrix _ w agreed, aesEncrypt_matrix, Equiv.symm_apply_apply]

theorem aesEncrypt_aesDecrypt (w : List UInt32) {keysize : Int} (agreed : Agreed keysize) (block : Block 16) :
    aesEncrypt (aesDecrypt block w keysize) w keysize = block := by
  apply block_ext
  rw [aesEncrypt_matrix, aesDecrypt_matrix block w agreed, Equiv.apply_symm_apply]

/-- For every schedule, and every key size for which both make the same rounds. -/
theorem aes_inverse (w : List UInt32) {keysize : Int} (agreed : Agreed keysize) (block : Block 16) :
    aesDecrypt (aesEncrypt block w keysize) w keysize = block ∧
      aesEncrypt (aesDecrypt block w keysize) w keysize = block :=
  ⟨aesDecrypt_aesEncrypt w agreed block, aesEncrypt_aesDecrypt w agreed block⟩

/-- A block of the byte `n`. -/
def blockOf (n : UInt8) : Block 16 := ⟨List.replicate 16 n, rfl⟩

/-- Even under a schedule that no key was expanded to. -/
theorem aes_inverse_cleared :
    aesDecrypt (aesEncrypt (blockOf 7) (List.replicate 60 0) 256) (List.replicate 60 0) 256 = blockOf 7 ∧
      aesEncrypt (aesDecrypt (blockOf 7) (List.replicate 60 0) 256) (List.replicate 60 0) 256 = blockOf 7 :=
  aes_inverse (List.replicate 60 0) (Or.inr (Or.inr (by decide))) (blockOf 7)

/-! ### Key expansion -/

/-- One turn of the expansion. -/
theorem wordVector_expandedWord {nk : Nat} (positive : 0 < nk) (key : Nat → Word) (w : List UInt32) {idx : Nat}
    (above : nk ≤ idx) (below : idx ≤ 15 * nk)
    (done : ∀ i < idx, scheduleWords w i = Rijndael.expandedKey aesBox nk key i) :
    wordVector (expandedWord nk w idx) = Rijndael.expandedKey aesBox nk key idx := by
  have before : wordVector (w.getD (idx - nk) 0) = Rijndael.expandedKey aesBox nk key (idx - nk) := done _ (by omega)
  have last : wordVector (w.getD (idx - 1) 0) = Rijndael.expandedKey aesBox nk key (idx - 1) := done _ (by omega)
  rw [Rijndael.expandedKey_of_le aesBox key positive above, ← before, ← last, expandedWord, wordVector_xor,
    Rijndael.expansionStep]
  refine congrArg _ ?_
  by_cases whole : idx % nk = 0
  · obtain ⟨turns, hturns⟩ := Nat.dvd_of_mod_eq_zero whole
    obtain ⟨before, rfl⟩ : ∃ before, turns = before + 1 :=
      ⟨turns - 1, by have : turns ≠ 0 := by rintro rfl; omega
                     omega⟩
    have place : (idx - 1) / nk = before := by
      rw [hturns, Nat.mul_succ, Nat.mul_comm]
      exact Nat.div_eq_of_lt_le (by omega) (by rw [Nat.add_mul, Nat.one_mul]; omega)
    have number : idx / nk = before + 1 := by rw [hturns, Nat.mul_div_cancel_left _ positive]
    have short : before < 15 := by
      rw [hturns, Nat.mul_comm] at below
      have := Nat.le_of_mul_le_mul_right below positive
      omega
    rw [if_pos whole, if_pos whole, wordVector_xor, wordVector_subWord, wordVector_keRotword, place, number,
      wordVector_rcon before short]
  · rw [if_neg whole, if_neg whole]
    by_cases middle : nk > 6 ∧ idx % nk = 4
    · rw [if_pos middle, if_pos middle, wordVector_subWord]
    · rw [if_neg middle, if_neg middle]

/-- The user's key as words. -/
def keyWords (key : Bytes) (i : Nat) : Word := wordVector (keyWord key i)

theorem aesKeySetup_words (key : Bytes) {w : List UInt32} {keysize : Int} {nr nk : Nat}
    (parameters : aesParameters keysize = some (nr, nk)) (long : 4 * (nr + 1) ≤ w.length) :
    (∀ i < 4 * (nr + 1), scheduleWords (aesKeySetup key w keysize) i =
        Rijndael.expandedKey aesBox nk (keyWords key) i) ∧
      (aesKeySetup key w keysize).length = w.length ∧
      (aesKeySetup key w keysize).drop (4 * (nr + 1)) = w.drop (4 * (nr + 1)) := by
  have sizes : 0 < nk ∧ nk ≤ 4 * (nr + 1) ∧ 4 * (nr + 1) ≤ 15 * nk := by
    unfold aesParameters at parameters
    split at parameters
    · cases parameters; decide
    · split at parameters
      · cases parameters; decide
      · split at parameters
        · cases parameters; decide
        · cases parameters
  obtain ⟨positive, covers, short⟩ := sizes
  rw [aesKeySetup, parameters]
  dsimp only
  generalize 4 * (nr + 1) = total at long covers short ⊢
  obtain ⟨more, rfl⟩ := Nat.exists_eq_add_of_le covers
  rw [Nat.add_sub_cancel_left]
  have copied : ∀ i < 0 + nk, scheduleWords (storeWords (fun _ idx => keyWord key idx) w 0 nk) i =
      Rijndael.expandedKey aesBox nk (keyWords key) i := by
    apply storeWords_words wordVector 0 (Nat.le_refl 0) (by omega)
    · intro i below
      exact absurd below (Nat.not_lt_zero i)
    · intro w i _ below _
      exact (Rijndael.expandedKey_of_lt aesBox (keyWords key) (by omega)).symm
  obtain ⟨length, rest⟩ := storeWords_keeps (fun _ idx => keyWord key idx) w 0 nk
  rw [Nat.zero_add] at copied rest
  generalize storeWords (fun _ idx => keyWord key idx) w 0 nk = filled at length rest copied ⊢
  obtain ⟨length', rest'⟩ := storeWords_keeps (expandedWord nk) filled nk more
  refine ⟨?words, length'.trans length, ?rest⟩
  case words =>
    apply storeWords_words wordVector nk (Nat.le_refl nk) (by omega) copied
    intro w i above below done
    exact wordVector_expandedWord positive (keyWords key) w above (by omega) done
  case rest => rw [rest', ← List.drop_drop, ← List.drop_drop, rest]

theorem aesParameters_rounds {keysize : Int} {nr nk : Nat} (parameters : aesParameters keysize = some (nr, nk)) :
    Agreed keysize ∧ aesRounds keysize = nr := by
  unfold aesParameters at parameters
  split at parameters
  case isTrue small =>
    cases parameters
    exact ⟨Or.inl small, if_pos small⟩
  case isFalse small =>
    split at parameters
    case isTrue middle =>
      cases parameters
      exact ⟨Or.inr (Or.inl middle), (if_neg small).trans (if_pos middle)⟩
    case isFalse middle =>
      split at parameters
      case isTrue large =>
        cases parameters
        exact ⟨Or.inr (Or.inr (by omega)), (if_neg small).trans (if_neg middle)⟩
      case isFalse => cases parameters

/-- The schedule of a key makes the rounds of the standard for it. -/
theorem scheduled_aesKeySetup (key : Bytes) {w : List UInt32} {keysize : Int} {nr nk : Nat}
    (parameters : aesParameters keysize = some (nr, nk)) (long : 4 * (nr + 1) ≤ w.length) :
    Rijndael.scheduled aesBox (aesRounds keysize) (scheduleWords (aesKeySetup key w keysize)) =
      Rijndael.encryption aesBox nk nr (keyWords key) := by
  rw [(aesParameters_rounds parameters).2]
  exact Rijndael.scheduled_congr aesBox (aesKeySetup_words key parameters long).1

/-- The three functions together are the cipher of the standard, whatever the memory of the schedule held. -/
theorem aes_standard (key : Bytes) {w : List UInt32} {keysize : Int} {nr nk : Nat}
    (parameters : aesParameters keysize = some (nr, nk)) (long : 4 * (nr + 1) ≤ w.length) :
    ∃ box : Equiv.Perm Gf256, (∀ a, box a = Rijndael.sBox a) ∧ ∀ block : Block 16,
      (AesState.load (aesEncrypt block (aesKeySetup key w keysize) keysize)).matrix =
          Rijndael.encryption box nk nr (keyWords key) (AesState.load block).matrix ∧
        (AesState.load (aesDecrypt block (aesKeySetup key w keysize) keysize)).matrix =
          (Rijndael.encryption box nk nr (keyWords key)).symm (AesState.load block).matrix := by
  obtain ⟨agreed, -⟩ := aesParameters_rounds parameters
  have cipher := scheduled_aesKeySetup key parameters long
  refine ⟨aesBox, aesBox_eq, fun block => ⟨?encrypt, ?decrypt⟩⟩
  case encrypt => rw [aesEncrypt_matrix, cipher]
  case decrypt => rw [aesDecrypt_matrix block _ agreed, cipher]

/-- The key size and the schedule of `crypto.cpp`. -/
theorem aes_standard_cleared :
    ∃ box : Equiv.Perm Gf256, (∀ a, box a = Rijndael.sBox a) ∧ ∀ block : Block 16,
      (AesState.load (aesEncrypt block (aesKeySetup (List.replicate 32 7) (List.replicate 60 0) 256) 256)).matrix =
          Rijndael.encryption box 8 14 (keyWords (List.replicate 32 7)) (AesState.load block).matrix ∧
        (AesState.load (aesDecrypt block (aesKeySetup (List.replicate 32 7) (List.replicate 60 0) 256) 256)).matrix =
          (Rijndael.encryption box 8 14 (keyWords (List.replicate 32 7))).symm (AesState.load block).matrix :=
  aes_standard (List.replicate 32 7) (by decide) (by decide)

end RubyOlm

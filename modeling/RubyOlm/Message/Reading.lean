import RubyOlm.Message.Payload

/-!
# Payloads of any bytes

A decoder reads what it can. It stops for good at a field that it cannot pass over, and what it has read by then
counts, with what there is of a number that is cut off. So for any bytes it reports of a tag the last value that was
read under it, as it does for a row of fields.
-/

namespace RubyOlm.Payload

/-! ### One field -/

/-- The bytes up to the first without the high bit, or all of them, and the rest. -/
def splitVarint : (payload : Bytes) → Bytes × Bytes
  | [] => ([], [])
  | byte :: rest =>
    if byte &&& 0x80 = 0 then ([byte], rest)
    else
      let (varint, rest) := splitVarint rest
      (byte :: varint, rest)

/-- What is read in front of a payload. -/
structure Piece where
  tag : Bytes
  value : Option Value
  rest : Bytes

/-- A string that is longer than the rest is lost with the rest, and so is a field of another type. -/
def firstPiece (payload : Bytes) : Piece :=
  let (tag, rest) := splitVarint payload
  let type := tag.getD 0 0 &&& 0x7
  if type = 0 then
    let (number, rest) := splitVarint rest
    ⟨tag, some (.int (UInt32.ofNat (varintValue number % 2 ^ 32))), rest⟩
  else if type = 2 then
    let (length, rest) := splitVarint rest
    let len := varintValue length % 2 ^ 64
    if len > rest.length then ⟨tag, none, []⟩ else ⟨tag, some (.string len (rest.take len)), rest.drop len⟩
  else ⟨tag, none, []⟩

/-- Piece by piece: what was found of the tag so far gives way to a later value. -/
def lastReadFrom (tag : UInt8) : (fuel : Nat) → (payload : Bytes) → (found : Option Value) → Option Value
  | 0, _, found => found
  | _, [], found => found
  | fuel + 1, payload, found =>
    let piece := firstPiece payload
    lastReadFrom tag fuel piece.rest (if piece.tag = [tag] then piece.value.or found else found)

/-- Every piece takes a byte at least. -/
def lastReadOr (tag : UInt8) (payload : Bytes) (found : Option Value) : Option Value :=
  lastReadFrom tag payload.length payload found

def lastRead (payload : Bytes) (tag : UInt8) : Option Value := lastReadOr tag payload none

theorem splitVarint_append (payload : Bytes) : (splitVarint payload).1 ++ (splitVarint payload).2 = payload := by
  induction payload with
  | nil => rfl
  | cons byte rest ih =>
    rw [splitVarint]
    split
    · rfl
    · dsimp only
      rw [List.cons_append, ih]

theorem length_splitVarint (payload : Bytes) :
    (splitVarint payload).1.length + (splitVarint payload).2.length = payload.length := by
  rw [← List.length_append, splitVarint_append]

theorem splitVarint_complete {varint : Bytes} (complete : CompleteVarint varint) (rest : Bytes) :
    splitVarint (varint ++ rest) = (varint, rest) := by
  induction varint with
  | nil => exact complete.elim
  | cons byte varint ih =>
    rw [CompleteVarint] at complete
    rw [List.cons_append, splitVarint]
    split
    · rename_i last
      rw [if_pos last] at complete
      rw [complete, List.nil_append]
    · rename_i more
      rw [if_neg more] at complete
      rw [ih complete]

/-- A tag of one byte. -/
theorem splitVarint_low {tag : UInt8} (low : tag &&& 0x80 = 0) (rest : Bytes) :
    splitVarint (tag :: rest) = ([tag], rest) := by
  rw [splitVarint, if_pos low]

theorem getD_splitVarint (payload : Bytes) : (splitVarint payload).1.getD 0 0 = payload.getD 0 0 := by
  cases payload with
  | nil => rfl
  | cons byte rest =>
    rw [splitVarint]
    split <;> rfl

theorem firstPiece_tag (payload : Bytes) : (firstPiece payload).tag = (splitVarint payload).1 := by
  unfold firstPiece
  dsimp only
  split
  · rfl
  · split
    · split <;> rfl
    · rfl

theorem length_firstPiece {payload : Bytes} (some : payload ≠ []) :
    (firstPiece payload).rest.length < payload.length := by
  have tag := length_splitVarint payload
  have body := length_splitVarint (splitVarint payload).2
  have first : 0 < (splitVarint payload).1.length := by
    cases payload with
    | nil => exact absurd rfl some
    | cons byte rest =>
      rw [splitVarint]
      split <;> exact Nat.succ_pos _
  have none : 0 < payload.length := List.length_pos_iff.mpr some
  unfold firstPiece
  dsimp only
  split
  · dsimp only
    omega
  · split
    · split
      · exact none
      · dsimp only
        rw [List.length_drop]
        omega
    · exact none

theorem lastReadFrom_fuel (tag : UInt8) {fuel fuel' : Nat} {payload : Bytes} (enough : payload.length ≤ fuel)
    (enough' : payload.length ≤ fuel') (found : Option Value) :
    lastReadFrom tag fuel payload found = lastReadFrom tag fuel' payload found := by
  induction fuel generalizing fuel' payload found with
  | zero =>
    obtain rfl := List.length_eq_zero_iff.mp (Nat.le_zero.mp enough)
    cases fuel' <;> rfl
  | succ fuel ih =>
    cases payload with
    | nil => cases fuel' <;> rfl
    | cons byte rest =>
      obtain ⟨fuel', rfl⟩ : ∃ more, fuel' = more + 1 := ⟨fuel' - 1, by rw [List.length_cons] at enough'; omega⟩
      have shorter := length_firstPiece (List.cons_ne_nil byte rest)
      exact ih (by omega) (by omega) _

@[simp] theorem lastReadOr_nil (tag : UInt8) (found : Option Value) : lastReadOr tag [] found = found := rfl

theorem lastReadOr_eq (tag : UInt8) {payload : Bytes} (some : payload ≠ []) (found : Option Value) :
    lastReadOr tag payload found = lastReadOr tag (firstPiece payload).rest
      (if (firstPiece payload).tag = [tag] then (firstPiece payload).value.or found else found) := by
  have shorter := length_firstPiece some
  cases payload with
  | nil => exact absurd rfl some
  | cons byte rest => exact lastReadFrom_fuel tag (Nat.lt_succ_iff.mp shorter) (Nat.le_refl _) _

/-! ### Rows of fields -/

theorem firstPiece_encode (field : Field) (rest : Bytes) :
    firstPiece (field.encode ++ rest) = ⟨field.tag, some field.value, rest⟩ := by
  cases field with
  | int tag value type =>
    rw [Field.encode, List.append_assoc]
    simp only [firstPiece, splitVarint_complete tag.property, splitVarint_complete value.property]
    have number : tag.val.getD 0 0 &&& 0x7 = 0 := type
    rw [if_pos number]
    rfl
  | string tag length content type counts =>
    rw [Field.encode, List.append_assoc, List.append_assoc]
    simp only [firstPiece, splitVarint_complete tag.property, splitVarint_complete length.property]
    have string : tag.val.getD 0 0 &&& 0x7 = 2 := type
    have not_number : ¬ tag.val.getD 0 0 &&& 0x7 = 0 := by
      rw [string]
      decide
    rw [if_neg not_number, if_pos string, counts, Nat.mod_eq_of_lt content.property,
      if_neg (by rw [List.length_append]; omega), List.take_left, List.drop_left]
    rfl

/-- Bytes that are no concatenation of complete fields. -/
def Malformed (payload : Bytes) : Prop := ∀ fields, payload ≠ encode fields

/-- A piece in front changes nothing about what is malformed behind it. -/
theorem malformed_of_rest {payload : Bytes} (some : payload ≠ []) (malformed : Malformed (firstPiece payload).rest) :
    Malformed payload := by
  rintro (_ | ⟨field, fields⟩) same
  · exact some same
  · rw [encode_cons] at same
    refine malformed fields ?_
    rw [same, firstPiece_encode]

/-- Bytes in front of which no value is read. -/
theorem malformed_of_unread {payload : Bytes} (some : payload ≠ []) (unread : (firstPiece payload).value = none) :
    Malformed payload := by
  rintro (_ | ⟨field, fields⟩) same
  · exact some same
  · rw [same, encode_cons, firstPiece_encode] at unread
    cases unread

/-! ### Reading at a position -/

/-- What is left of a payload that ends at `fin`. -/
def slice (input : Bytes) (fin pos : Nat) : Bytes := (input.take fin).drop pos

variable {input : Bytes} {fin pos : Nat}

theorem slice_fin (le : fin ≤ input.length) : slice input fin fin = [] :=
  List.drop_of_length_le (by rw [List.length_take]; omega)

theorem length_slice (le : fin ≤ input.length) : (slice input fin pos).length = fin - pos := by
  rw [slice, List.length_drop, List.length_take, Nat.min_eq_left le]

theorem slice_cons (le : fin ≤ input.length) (lt : pos < fin) :
    slice input fin pos = input.getD pos 0 :: slice input fin (pos + 1) := by
  have inside : pos < (input.take fin).length := by
    rw [List.length_take]
    omega
  rw [slice, List.drop_eq_getElem_cons inside, List.getElem_take, List.getD_eq_getElem _ _ (by omega)]
  rfl

theorem slice_ne_nil (le : fin ≤ input.length) (lt : pos < fin) : slice input fin pos ≠ [] := by
  rw [slice_cons le lt]
  exact List.cons_ne_nil _ _

theorem drop_slice (count : Nat) : (slice input fin pos).drop count = slice input fin (pos + count) := List.drop_drop

theorem take_slice {count : Nat} (fits : pos + count ≤ fin) :
    (slice input fin pos).take count = (input.drop pos).take count := by
  rw [slice, List.drop_take, List.take_take, Nat.min_eq_left (by omega)]

theorem varintSkip_slice (le : fin ≤ input.length) (before : pos ≤ fin) :
    varintSkip input (fin - pos) pos = pos + (splitVarint (slice input fin pos)).1.length := by
  obtain ⟨count, hcount⟩ : ∃ count, fin - pos = count := ⟨_, rfl⟩
  rw [hcount]
  induction count generalizing pos with
  | zero =>
    obtain rfl : pos = fin := by omega
    rw [slice_fin le]
    rfl
  | succ count ih =>
    rw [varintSkip, slice_cons le (by omega), splitVarint]
    split
    · rfl
    · dsimp only
      rw [ih (by omega) (by omega), List.length_cons]
      omega

/-- A varint at a position: where it ends, what is behind it and its bytes. -/
structure VarintAt (input : Bytes) (fin pos stop : Nat) : Prop where
  after : pos ≤ stop
  before : stop ≤ fin
  rest : slice input fin stop = (splitVarint (slice input fin pos)).2
  bytes : (input.drop pos).take (stop - pos) = (splitVarint (slice input fin pos)).1

theorem varintAt (le : fin ≤ input.length) (before : pos ≤ fin) :
    VarintAt input fin pos (varintSkip input (fin - pos) pos) := by
  have whole := splitVarint_append (slice input fin pos)
  have length := length_splitVarint (slice input fin pos)
  rw [length_slice le] at length
  rw [varintSkip_slice le before]
  obtain ⟨⟨varint, rest⟩, hsplit⟩ : ∃ split, splitVarint (slice input fin pos) = split := ⟨_, rfl⟩
  rw [hsplit] at whole length ⊢
  dsimp only at whole length ⊢
  refine ⟨by omega, by omega, ?_, ?_⟩
  · rw [hsplit, ← drop_slice, ← whole, List.drop_left]
  · have fits : pos + varint.length ≤ fin := by omega
    rw [hsplit, Nat.add_sub_cancel_left, ← take_slice fits, ← whole, List.take_left]

/-- A reader of one known tag: it takes the piece at its position if that has the tag, and does nothing otherwise. -/
structure ReadsTag {Field : Type} (input : Bytes) (fin : Nat) (tag : UInt8) (decode : Nat → Field → Nat × Field)
    (report : Field → Option Value) : Prop where
  here : ∀ {pos} field, pos < fin → input.getD pos 0 = tag →
    pos < (decode pos field).1 ∧ (decode pos field).1 ≤ fin ∧
      slice input fin (decode pos field).1 = (firstPiece (slice input fin pos)).rest ∧
      report (decode pos field).2 = (firstPiece (slice input fin pos)).value.or (report field)
  elsewhere : ∀ {pos field}, ¬ (pos ≠ fin ∧ input.getD pos 0 = tag) → decode pos field = (pos, field)

theorem decodeInt_readsTag (le : fin ≤ input.length) {tag : UInt8} (low : tag &&& 0x80 = 0) (type : tag &&& 0x7 = 0) :
    ReadsTag input fin tag (decodeInt input fin tag) intReport where
  here {pos} field lt found := by
    have number := varintAt le (show pos + 1 ≤ fin by omega)
    have skipped := number.after
    have split := splitVarint_low low (slice input fin (pos + 1))
    rw [decodeInt, if_pos ⟨Nat.ne_of_lt lt, found⟩, slice_cons le lt, found, firstPiece, split]
    dsimp only
    rw [List.getD_cons_zero, if_pos type, number.bytes, varintDecode_eq (by decide)]
    exact ⟨by omega, number.before, number.rest, rfl⟩
  elsewhere absent := if_neg absent

theorem decodeString_readsTag (le : fin ≤ input.length) {tag : UInt8} (low : tag &&& 0x80 = 0)
    (type : tag &&& 0x7 = 2) : ReadsTag input fin tag (decodeString input fin tag) (stringReport input) where
  here {pos} field lt found := by
    have length := varintAt le (show pos + 1 ≤ fin by omega)
    have skipped := length.after
    have bound := length.before
    have split := splitVarint_low low (slice input fin (pos + 1))
    have not_number : ¬ tag &&& 0x7 = 0 := by
      rw [type]
      decide
    rw [decodeString, if_pos ⟨Nat.ne_of_lt lt, found⟩, slice_cons le lt, found, firstPiece, split]
    dsimp only
    rw [List.getD_cons_zero, if_neg not_number, if_pos type, length.bytes, varintDecode_eq (by decide), ← length.rest,
      length_slice le]
    split
    · exact ⟨lt, Nat.le_refl fin, slice_fin le, rfl⟩
    · refine ⟨?_, ?_, (drop_slice _).symm, ?_⟩
      · dsimp only
        omega
      · dsimp only
        omega
      · rw [take_slice (by omega)]
        rfl
  elsewhere absent := if_neg absent

/-- Whatever is there, `skip_unknown` goes on behind it. -/
theorem skipUnknown_slice (le : fin ≤ input.length) (lt : pos < fin) :
    slice input fin (skipUnknown input fin pos) = (firstPiece (slice input fin pos)).rest := by
  have tag := varintAt le (Nat.le_of_lt lt)
  have body := varintAt le tag.before
  have first : (splitVarint (slice input fin pos)).1.getD 0 0 = input.getD pos 0 := by
    rw [getD_splitVarint, slice_cons le lt, List.getD_cons_zero]
  rw [skipUnknown, if_pos (Nat.ne_of_lt lt), firstPiece]
  dsimp only
  rw [first, ← tag.rest]
  split
  · exact body.rest
  · split
    · rw [body.bytes, varintDecode_eq (by decide), ← body.rest, length_slice le]
      split
      · exact slice_fin le
      · exact (drop_slice _).symm
    · exact slice_fin le

/-! ### Turns of the loop -/

namespace ReadsTag

variable {Field : Type} {tag tag' : UInt8} {decode : Nat → Field → Nat × Field} {report : Field → Option Value}

theorem reaches (reads : ReadsTag input fin tag decode report) (before : pos ≤ fin) (field : Field) :
    pos ≤ (decode pos field).1 ∧ (decode pos field).1 ≤ fin := by
  by_cases found : pos ≠ fin ∧ input.getD pos 0 = tag
  · obtain ⟨after, bound, -⟩ := reads.here field (by omega) found.2
    omega
  · rw [reads.elsewhere found]
    omega

/-- A reader that has not moved did not find its tag. -/
theorem absent (reads : ReadsTag input fin tag decode report) (lt : pos < fin) {field : Field}
    (stays : (decode pos field).1 = pos) : input.getD pos 0 ≠ tag := by
  intro found
  have moved := (reads.here field lt found).1
  omega

variable (le : fin ≤ input.length)
include le

theorem first_tag (low : tag &&& 0x80 = 0) (lt : pos < fin) (found : input.getD pos 0 = tag) :
    (firstPiece (slice input fin pos)).tag = [tag] := by
  rw [firstPiece_tag, slice_cons le lt, found, splitVarint_low low]

/-- What is reported in the end of the reader's tag is the same before it and behind it. -/
theorem own (reads : ReadsTag input fin tag decode report) (low : tag &&& 0x80 = 0) (before : pos ≤ fin)
    (field : Field) : lastReadOr tag (slice input fin (decode pos field).1) (report (decode pos field).2) =
      lastReadOr tag (slice input fin pos) (report field) := by
  by_cases found : pos ≠ fin ∧ input.getD pos 0 = tag
  · have lt : pos < fin := by omega
    obtain ⟨-, -, rest, value⟩ := reads.here field lt found.2
    rw [lastReadOr_eq tag (slice_ne_nil le lt), if_pos (first_tag le low lt found.2), rest, value]
  · rw [reads.elsewhere found]

/-- And so is what is reported of any other tag. -/
theorem other (reads : ReadsTag input fin tag decode report) (low : tag &&& 0x80 = 0) (ne : tag ≠ tag')
    (before : pos ≤ fin) (field : Field) (found : Option Value) :
    lastReadOr tag' (slice input fin (decode pos field).1) found = lastReadOr tag' (slice input fin pos) found := by
  by_cases here : pos ≠ fin ∧ input.getD pos 0 = tag
  · have lt : pos < fin := by omega
    obtain ⟨-, -, rest, -⟩ := reads.here field lt here.2
    have differs : ¬ (firstPiece (slice input fin pos)).tag = [tag'] := by
      rw [first_tag le low lt here.2]
      exact fun same => ne (List.cons.inj same).1
    rw [lastReadOr_eq tag' (slice_ne_nil le lt), if_neg differs, rest]
  · rw [reads.elsewhere here]

end ReadsTag

/-- What the tags come to in the end, from what was found of each so far. -/
def outcome (known : List UInt8) (payload : Bytes) (found : List (Option Value)) : List (Option Value) :=
  List.zipWith (fun tag found => lastReadOr tag payload found) known found

theorem outcome_nil {known : List UInt8} {found : List (Option Value)} (length : found.length = known.length) :
    outcome known [] found = found := by
  induction known generalizing found with
  | nil =>
    obtain rfl := List.length_eq_zero_iff.mp length
    rfl
  | cons tag known ih =>
    cases found with
    | nil => cases length
    | cons first found => exact congrArg (first :: ·) (ih (Nat.succ.inj length))

theorem outcome_congr {known : List UInt8} {payload payload' : Bytes}
    (same : ∀ tag ∈ known, ∀ found, lastReadOr tag payload found = lastReadOr tag payload' found)
    (found : List (Option Value)) : outcome known payload found = outcome known payload' found := by
  unfold outcome
  induction known generalizing found with
  | nil => rfl
  | cons tag known ih =>
    cases found with
    | nil => rfl
    | cons first found =>
      obtain ⟨here, rest⟩ := List.forall_mem_cons.mp same
      rw [List.zipWith_cons_cons, List.zipWith_cons_cons, here, ih rest]

/-- A piece under another tag. -/
theorem outcome_skip {known : List UInt8} {payload : Bytes} (some : payload ≠ [])
    (unknown : ∀ tag ∈ known, payload.getD 0 0 ≠ tag) (found : List (Option Value)) :
    outcome known (firstPiece payload).rest found = outcome known payload found := by
  apply outcome_congr
  intro tag mem found
  have differs : ¬ (firstPiece payload).tag = [tag] := by
    intro same
    rw [firstPiece_tag] at same
    have first := getD_splitVarint payload
    rw [same] at first
    exact unknown tag mem first.symm
  rw [lastReadOr_eq tag some, if_neg differs]

/-- A decoder whose turns do not change what a tag comes to, and pass over what has none of the known ones. -/
structure ReadsKnown {Results : Type} (input : Bytes) (fin : Nat) (known : List UInt8)
    (decode : Nat → Results → Nat × Results) (report : Results → List (Option Value)) : Prop where
  length : ∀ results, (report results).length = known.length
  reaches : ∀ {pos}, pos ≤ fin → ∀ results, pos ≤ (decode pos results).1 ∧ (decode pos results).1 ≤ fin
  own : ∀ {pos}, pos ≤ fin → ∀ results,
    outcome known (slice input fin (decode pos results).1) (report (decode pos results).2) =
      outcome known (slice input fin pos) (report results)
  other : ∀ {pos tag}, pos ≤ fin → tag ∉ known → ∀ results found,
    lastReadOr tag (slice input fin (decode pos results).1) found = lastReadOr tag (slice input fin pos) found
  absent : ∀ {pos}, pos < fin → ∀ {results}, (decode pos results).1 = pos → ∀ tag ∈ known, input.getD pos 0 ≠ tag

namespace ReadsKnown

theorem nil : ReadsKnown input fin [] (fun pos (_ : Unit) => (pos, ())) fun _ => [] where
  length _ := rfl
  reaches {pos} before _ := ⟨Nat.le_refl pos, before⟩
  own _ _ := rfl
  other _ _ _ _ := rfl
  absent := by rintro pos lt results stays tag ⟨⟩

/-- One tag is tried before the others. -/
theorem cons {Field Results : Type} {tag : UInt8} {known : List UInt8} {decode : Nat → Field → Nat × Field}
    {report : Field → Option Value} {decodeRest : Nat → Results → Nat × Results}
    {reportRest : Results → List (Option Value)} (le : fin ≤ input.length) (low : tag &&& 0x80 = 0)
    (first : ReadsTag input fin tag decode report) (new : tag ∉ known)
    (rest : ReadsKnown input fin known decodeRest reportRest) :
    ReadsKnown input fin (tag :: known)
      (fun pos results =>
        ((decodeRest (decode pos results.1).1 results.2).1, (decode pos results.1).2,
          (decodeRest (decode pos results.1).1 results.2).2))
      fun results => report results.1 :: reportRest results.2 where
  length results := congrArg (· + 1) (rest.length results.2)
  reaches before results := by
    have here := first.reaches before results.1
    have there := rest.reaches here.2 results.2
    exact ⟨Nat.le_trans here.1 there.1, there.2⟩
  own {pos} before results := by
    have here := first.reaches before results.1
    have kept : outcome known (slice input fin (decode pos results.1).1) (reportRest results.2) =
        outcome known (slice input fin pos) (reportRest results.2) := by
      have same : ∀ tag' ∈ known, ∀ found, lastReadOr tag' (slice input fin (decode pos results.1).1) found =
          lastReadOr tag' (slice input fin pos) found := by
        intro tag' mem found
        exact first.other le low (fun eq => new (eq ▸ mem)) before results.1 found
      exact outcome_congr same _
    rw [outcome, List.zipWith_cons_cons, ← outcome, rest.own here.2 results.2, kept, rest.other here.2 new,
      first.own le low before]
    rfl
  other before absent results found := by
    have here := first.reaches before results.1
    rw [List.mem_cons, not_or] at absent
    rw [rest.other here.2 absent.2, first.other le low (Ne.symm absent.1) before]
  absent {pos} lt results stays := by
    have here := first.reaches (Nat.le_of_lt lt) results.1
    have there := rest.reaches here.2 results.2
    have stays₁ : (decode pos results.1).1 = pos := by omega
    rw [stays₁] at stays
    exact List.forall_mem_cons.mpr ⟨first.absent lt stays₁, rest.absent lt stays⟩

/-- The same decoder with its results in another form. -/
theorem of_view {Results View : Type} {known : List UInt8} {decode : Nat → Results → Nat × Results}
    {decodeView : Nat → View → Nat × View} {report : View → List (Option Value)} (view : Results → View)
    (same : ∀ pos results, decodeView pos (view results) = ((decode pos results).1, view (decode pos results).2))
    (reads : ReadsKnown input fin known decodeView report) :
    ReadsKnown input fin known decode fun results => report (view results) where
  length results := reads.length (view results)
  reaches {pos} before results := by
    have reached := reads.reaches before (view results)
    rwa [same] at reached
  own {pos} before results := by
    have own := reads.own before (view results)
    rwa [same] at own
  other {pos tag} before absent results found := by
    have other := reads.other before absent (view results) found
    rwa [same] at other
  absent {pos} lt results stays := by
    have stays' : (decodeView pos (view results)).1 = pos := by
      rw [same]
      exact stays
    exact reads.absent lt stays'

end ReadsKnown

theorem ReadsKnown.decodeFields_outcome {Results : Type} {known : List UInt8} {decode : Nat → Results → Nat × Results}
    {report : Results → List (Option Value)} (reads : ReadsKnown input fin known decode report)
    (le : fin ≤ input.length) {fuel : Nat} (before : pos ≤ fin) (enough : fin - pos ≤ fuel) (results : Results) :
    report (decodeFields input fin decode fuel pos results) = outcome known (slice input fin pos) (report results) := by
  have advances : Advances fin decode fun _ => True := ⟨fun _ le => reads.reaches le, fun _ _ _ _ => trivial⟩
  induction fuel generalizing pos results with
  | zero =>
    obtain rfl : pos = fin := by omega
    rw [slice_fin le, outcome_nil (reads.length results)]
    rfl
  | succ fuel ih =>
    by_cases last : pos = fin
    · rw [last, decodeFields_fin, slice_fin le, outcome_nil (reads.length results)]
    · have lt : pos < fin := by omega
      have moved := advances.lt_turnEnd input lt results
      rw [decodeFields_succ input last, ih moved.2 (by omega), ← reads.own before results]
      unfold turnEnd
      split
      · rename_i stays
        have some := slice_ne_nil le lt
        have first : (slice input fin pos).getD 0 0 = input.getD pos 0 := by
          rw [slice_cons le lt, List.getD_cons_zero]
        rw [skipUnknown_slice le lt, outcome_skip some (by rw [first]; exact reads.absent lt stays.symm), ← stays]
      · rfl

/-! ### The decoders -/

theorem decodeMessageFields_reads (le : fin ≤ input.length) :
    ReadsKnown input fin messageTags (decodeMessageFields input fin) (messageReport input) := by
  have key : ReadsTag input fin ratchetKeyTag _ _ := decodeString_readsTag le (by decide) (by decide)
  have counter : ReadsTag input fin counterTag _ _ := decodeInt_readsTag le (by decide) (by decide)
  have text : ReadsTag input fin ciphertextTag _ _ := decodeString_readsTag le (by decide) (by decide)
  have reads := ReadsKnown.nil.cons le (by decide) text (by decide) |>.cons le (by decide) counter (by decide)
    |>.cons le (by decide) key (by decide)
  exact reads.of_view (fun reader : MessageReader => (reader.ratchetKey, reader.counter, reader.ciphertext, ()))
    fun _ _ => rfl

theorem decodeOneTimeKeyFields_reads (le : fin ≤ input.length) :
    ReadsKnown input fin preKeyMessageTags (decodeOneTimeKeyFields input fin) (preKeyMessageReport input) := by
  have oneTime : ReadsTag input fin oneTimeKeyIdTag _ _ := decodeString_readsTag le (by decide) (by decide)
  have base : ReadsTag input fin baseKeyTag _ _ := decodeString_readsTag le (by decide) (by decide)
  have identity : ReadsTag input fin identityKeyTag _ _ := decodeString_readsTag le (by decide) (by decide)
  have text : ReadsTag input fin messageTag _ _ := decodeString_readsTag le (by decide) (by decide)
  have reads := ReadsKnown.nil.cons le (by decide) text (by decide) |>.cons le (by decide) identity (by decide)
    |>.cons le (by decide) base (by decide) |>.cons le (by decide) oneTime (by decide)
  exact reads.of_view
    (fun reader : PreKeyMessageReader => (reader.oneTimeKey, reader.baseKey, reader.identityKey, reader.message, ()))
    fun _ _ => rfl

/-- The payload of a message with a MAC. -/
def payloadOf (input : Bytes) (macLength : Nat) : Bytes := slice input (input.length - macLength) 1

theorem payloadOf_nil {input : Bytes} {macLength : Nat} (short : input.length ≤ macLength) :
    payloadOf input macLength = [] := by
  rw [payloadOf, slice, Nat.sub_eq_zero_of_le short, List.take_zero, List.drop_nil]

/-- Whatever the bytes are and what the reader held before. -/
theorem decodeMessage_reads (stack : MessageReader) (input : Bytes) (macLength : Nat) :
    messageReport input (decodeMessage stack input macLength) = messageTags.map (lastRead (payloadOf input macLength)) := by
  by_cases short : input.length ≤ macLength
  · rw [payloadOf_nil short, decodeMessage]
    dsimp only
    split
    · rfl
    · rw [if_pos (by omega)]
      rfl
  · rw [decodeMessage, if_neg (by omega), if_neg (by omega)]
    exact (decodeMessageFields_reads (show input.length - macLength ≤ input.length by omega)).decodeFields_outcome
      (by omega) (by omega) (by omega) ⟨input.getD 0 0, { stack.counter with has := false }, none, none⟩

theorem decodeOneTimeKeyMessage_reads (stack : PreKeyMessageReader) (input : Bytes) :
    preKeyMessageReport input (decodeOneTimeKeyMessage stack input) =
      preKeyMessageTags.map (lastRead (payloadOf input 0)) := by
  by_cases empty : input.length = 0
  · rw [payloadOf_nil (Nat.le_of_eq empty), decodeOneTimeKeyMessage, if_pos empty]
    rfl
  · rw [decodeOneTimeKeyMessage, if_neg empty]
    exact (decodeOneTimeKeyFields_reads (Nat.le_refl input.length)).decodeFields_outcome
      (Nat.le_refl _) (by omega) (by omega) ⟨input.getD 0 0, none, none, none, none⟩

/-- The version byte is read if there is one in front of the MAC; otherwise the reader keeps what it held. -/
theorem decodeMessage_version (stack : MessageReader) (input : Bytes) (macLength : Nat) :
    (decodeMessage stack input macLength).version =
      if macLength < input.length then input.getD 0 0 else stack.version := by
  unfold decodeMessage
  dsimp only
  split
  · rw [if_neg (by omega)]
  · split
    · rw [if_neg (by omega)]
    · rw [if_pos (by omega)]
      have same : Advances (input.length - macLength) (decodeMessageFields input (input.length - macLength))
          fun reader => reader.version = input.getD 0 0 :=
        ⟨(decodeMessageFields_advances input _).reaches, fun _ _ _ same => same⟩
      exact same.decodeFields_keeps input _ (by omega) rfl

end RubyOlm.Payload

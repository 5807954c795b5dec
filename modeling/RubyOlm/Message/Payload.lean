import RubyOlm.Message.Progress
import RubyOlm.Message.RoundTrip

/-!
# Payloads

Between the version byte and the trailers a message is a row of fields. The decoders know some tags, try them in one
order and pass over the field before them when it has none of these. What they report of a tag is the last field that
has it, wherever the others are.
-/

namespace RubyOlm

namespace Payload

/-! ### Fields -/

abbrev Varint := { bytes : Bytes // CompleteVarint bytes }

/-- The three lowest bits of the first byte. -/
def fieldType (tag : Varint) : UInt8 := tag.val.getD 0 0 &&& 0x7

/-- A number, or a string behind its length. A tag is the bytes that it is written in; the known ones have one byte. -/
inductive Field where
  | int (tag value : Varint) (type : fieldType tag = 0)
  | string (tag length : Varint) (content : Buffer) (type : fieldType tag = 2)
      (counts : varintValue length.val = content.val.length)

namespace Field

def tag : Field → Bytes
  | int tag .. => tag.val
  | string tag .. => tag.val

def encode : Field → Bytes
  | int tag value _ => tag.val ++ value.val
  | string tag length content .. => tag.val ++ (length.val ++ content.val)

end Field

def encode (fields : List Field) : Bytes := fields.flatMap Field.encode

theorem encode_cons (field : Field) (fields : List Field) : encode (field :: fields) = field.encode ++ encode fields := rfl

theorem encode_append (fields fields' : List Field) : encode (fields ++ fields') = encode fields ++ encode fields' :=
  List.flatMap_append

/-- What a decoder can report of a tag. -/
inductive Value where
  | int (value : UInt32)
  | string (length : Nat) (content : Bytes)

def Field.value : Field → Value
  | int _ value _ => .int (UInt32.ofNat (varintValue value.val % 2 ^ 32))
  | string _ _ content .. => .string content.val.length content.val

def withTag (fields : List Field) (tag : UInt8) : List Field := fields.filter fun field => field.tag = [tag]

def lastValue (fields : List Field) (tag : UInt8) : Option Value := (withTag fields tag).getLast?.map Field.value

theorem Field.complete_tag (field : Field) : CompleteVarint field.tag := by
  cases field with
  | int tag => exact tag.property
  | string tag => exact tag.property

theorem Field.encode_eq (field : Field) : ∃ body, field.encode = field.tag ++ body := by
  cases field with
  | int => exact ⟨_, rfl⟩
  | string => exact ⟨_, rfl⟩

theorem Field.length_encode_pos (field : Field) : 0 < field.encode.length := by
  obtain ⟨body, encoded⟩ := field.encode_eq
  have some := field.complete_tag.length_pos
  rw [encoded, List.length_append]
  omega

theorem lastValue_append_known {field : Field} {tag : UInt8} (known : field.tag = [tag]) (done : List Field) :
    lastValue (done ++ [field]) tag = some field.value := by
  rw [lastValue, withTag, List.filter_append, List.filter_cons_of_pos (by rw [known]; exact decide_eq_true rfl),
    List.filter_nil, List.getLast?_concat, Option.map_some]

theorem lastValue_append_other {taken : List Field} {tag : UInt8} (other : ∀ field ∈ taken, field.tag ≠ [tag])
    (done : List Field) : lastValue (done ++ taken) tag = lastValue done tag := by
  have none : taken.filter (fun field => field.tag = [tag]) = [] :=
    List.filter_eq_nil_iff.mpr fun field member same => other field member (of_decide_eq_true same)
  rw [lastValue, withTag, List.filter_append, none, List.append_nil, lastValue, withTag]

/-! ### Reading field by field -/

/-- What is left between `pos` and the end are these fields. -/
structure At (input : Bytes) (fin pos : Nat) (fields : List Field) : Prop where
  text : ∃ rest, input.drop pos = encode fields ++ rest
  fin : pos + (encode fields).length = fin

variable {input : Bytes} {fin pos : Nat} {field : Field} {rest : List Field}

namespace At

theorem le (left : At input fin pos rest) : pos ≤ fin := by
  have := left.fin
  omega

theorem cons (left : At input fin pos (field :: rest)) :
    (∃ behind, input.drop pos = field.encode ++ behind) ∧ pos + field.encode.length ≤ fin := by
  obtain ⟨behind, text⟩ := left.text
  have counted := left.fin
  rw [encode_cons] at text counted
  rw [List.append_assoc] at text
  rw [List.length_append] at counted
  exact ⟨⟨_, text⟩, by omega⟩

theorem next (left : At input fin pos (field :: rest)) : At input fin (pos + field.encode.length) rest := by
  obtain ⟨behind, text⟩ := left.text
  have counted := left.fin
  rw [encode_cons] at text counted
  rw [List.append_assoc] at text
  rw [List.length_append, ← Nat.add_assoc] at counted
  exact ⟨⟨behind, drop_of_drop text⟩, counted⟩

theorem ne_fin (left : At input fin pos (field :: rest)) : pos ≠ fin := by
  have some := field.length_encode_pos
  have before := left.cons.2
  omega

theorem eq_fin (left : At input fin pos []) : pos = fin := left.fin

theorem first_byte (left : At input fin pos (field :: rest)) : input.getD pos 0 = field.tag.getD 0 0 := by
  obtain ⟨⟨behind, text⟩, -⟩ := left.cons
  obtain ⟨body, encoded⟩ := field.encode_eq
  have complete := field.complete_tag
  rw [encoded] at text
  cases bytes : field.tag with
  | nil =>
    rw [bytes] at complete
    exact complete.elim
  | cons byte more =>
    rw [bytes, List.append_assoc, List.cons_append] at text
    rw [(getD_of_drop text).1, List.getD_cons_zero]

/-- A tag of one byte is known by its first byte. -/
theorem tag_iff (left : At input fin pos (field :: rest)) {tag : UInt8} (low : tag &&& 0x80 = 0) :
    input.getD pos 0 = tag ↔ field.tag = [tag] := by
  have complete := field.complete_tag
  rw [left.first_byte]
  cases bytes : field.tag with
  | nil =>
    rw [bytes] at complete
    exact complete.elim
  | cons byte more =>
    rw [bytes, CompleteVarint] at complete
    constructor
    · rintro rfl
      rw [List.getD_cons_zero] at low ⊢
      rw [if_pos low] at complete
      rw [complete]
    · intro same
      exact (List.cons.inj same).1

end At

/-- Where a known tag is tried, the field there is taken if it has that tag. -/
inductive Takes (tag : UInt8) : (fields taken left : List Field) → Prop
  | known {field : Field} {rest : List Field} : field.tag = [tag] → Takes tag (field :: rest) [field] rest
  | other {fields : List Field} : (∀ field ∈ fields.head?, field.tag ≠ [tag]) → Takes tag fields [] fields

theorem Takes.tag_eq {tag : UInt8} {fields taken left : List Field} (takes : Takes tag fields taken left) :
    ∀ field ∈ taken, field.tag = [tag] := by
  cases takes with
  | known known =>
    intro field member
    rw [List.mem_singleton.mp member]
    exact known
  | other => exact fun _ none => nomatch none

theorem Takes.other_tag {tag tag' : UInt8} {fields taken left : List Field} (takes : Takes tag fields taken left)
    (ne : tag' ≠ tag) : ∀ field ∈ taken, field.tag ≠ [tag'] := by
  intro field member same
  rw [takes.tag_eq field member] at same
  exact ne (List.cons.inj same).1.symm

def intReport (field : IntField) : Option Value := if field.has then some (.int field.value) else none

def stringReport (input : Bytes) (field : Option Span) : Option Value :=
  field.map fun span => .string span.length (span.read input)

/-- A reader of one known tag takes the field at `pos` if it does so when the tag is there and does nothing otherwise. -/
theorem At.takes {tag : UInt8} (low : tag &&& 0x80 = 0) (left : At input fin pos rest) {done : List Field} {pos' : Nat}
    {report report' : Option Value} (reports : report = lastValue done tag)
    (stays : ¬ (pos ≠ fin ∧ input.getD pos 0 = tag) → pos' = pos ∧ report' = report)
    (takes : ∀ (field : Field) behind, field.tag = [tag] → input.drop pos = field.encode ++ behind →
      pos + field.encode.length ≤ fin → pos' = pos + field.encode.length ∧ report' = some field.value) :
    ∃ taken left, Takes tag rest taken left ∧ At input fin pos' left ∧ report' = lastValue (done ++ taken) tag := by
  have unchanged (absent : ¬ (pos ≠ fin ∧ input.getD pos 0 = tag)) :
      At input fin pos' rest ∧ report' = lastValue (done ++ []) tag := by
    obtain ⟨same_pos, same⟩ := stays absent
    rw [same_pos, same, List.append_nil]
    exact ⟨left, reports⟩
  cases rest with
  | nil =>
    exact ⟨[], [], .other (fun _ none => nomatch none), unchanged fun both => both.1 left.eq_fin⟩
  | cons field rest =>
    by_cases known : field.tag = [tag]
    · obtain ⟨⟨behind, text⟩, before⟩ := left.cons
      obtain ⟨moved, value⟩ := takes field behind known text before
      rw [moved, value]
      exact ⟨[field], rest, .known known, left.next, (lastValue_append_known known done).symm⟩
    · exact ⟨[], field :: rest, .other (fun _ head => Option.some.inj head ▸ known),
        unchanged fun both => known ((left.tag_iff low).mp both.2)⟩

theorem decodeInt_at {tag : UInt8} (low : tag &&& 0x80 = 0) (type : tag &&& 0x7 = 0) (left : At input fin pos rest)
    {done : List Field} {found : IntField} (reports : intReport found = lastValue done tag) :
    ∃ taken left, Takes tag rest taken left ∧ At input fin (decodeInt input fin tag pos found).1 left ∧
      intReport (decodeInt input fin tag pos found).2 = lastValue (done ++ taken) tag := by
  apply left.takes low reports
  · intro absent
    rw [decodeInt, if_neg absent]
    exact ⟨rfl, rfl⟩
  · intro field behind known text before
    cases field with
    | int tag' value type' =>
      rw [Field.tag] at known
      rw [Field.encode, known, List.append_assoc] at text
      rw [Field.encode, known, List.length_append, List.length_singleton, ← Nat.add_assoc] at before ⊢
      rw [decodeInt_complete fin found value.property text before]
      exact ⟨rfl, rfl⟩
    | string tag' length content type' counts =>
      rw [Field.tag] at known
      rw [fieldType, known, List.getD_cons_zero, type] at type'
      exact absurd type' (by decide)

theorem decodeString_at {tag : UInt8} (low : tag &&& 0x80 = 0) (type : tag &&& 0x7 = 2) (left : At input fin pos rest)
    {done : List Field} {found : Option Span} (reports : stringReport input found = lastValue done tag) :
    ∃ taken left, Takes tag rest taken left ∧ At input fin (decodeString input fin tag pos found).1 left ∧
      stringReport input (decodeString input fin tag pos found).2 = lastValue (done ++ taken) tag := by
  apply left.takes low reports
  · intro absent
    rw [decodeString, if_neg absent]
    exact ⟨rfl, rfl⟩
  · intro field behind known text before
    cases field with
    | int tag' value type' =>
      rw [Field.tag] at known
      rw [fieldType, known, List.getD_cons_zero, type] at type'
      exact absurd type' (by decide)
    | string tag' length content type' counts =>
      rw [Field.tag] at known
      rw [Field.encode, known, List.append_assoc, List.append_assoc] at text
      rw [Field.encode, known, List.length_append, List.length_append, List.length_singleton, ← Nat.add_assoc,
        ← Nat.add_assoc] at before ⊢
      rw [decodeString_complete fin found length.property counts text before content.property]
      have read := drop_of_drop (drop_of_drop text)
      rw [List.length_singleton] at read
      rw [stringReport, Option.map_some, Span.read_of_drop read]
      exact ⟨rfl, rfl⟩

/-- Whatever the field is, `skip_unknown` passes it as a whole. -/
theorem skipUnknown_at (left : At input fin pos (field :: rest)) : At input fin (skipUnknown input fin pos) rest := by
  have after := left.next
  obtain ⟨⟨behind, text⟩, before⟩ := left.cons
  rw [skipUnknown, if_pos left.ne_fin, left.first_byte]
  cases field with
  | int tag value type =>
    rw [Field.encode, List.append_assoc] at text
    rw [Field.encode, List.length_append, ← Nat.add_assoc] at before after
    have skipTag := varintSkip_complete tag.property text (show tag.val.length ≤ fin - pos by omega)
    have skipValue := varintSkip_complete value.property (drop_of_drop text)
      (show value.val.length ≤ fin - (pos + tag.val.length) by omega)
    have number : (Field.int tag value type).tag.getD 0 0 &&& 0x7 = 0 := type
    simp only [if_pos number, skipTag, skipValue]
    exact after
  | string tag length content type counts =>
    rw [Field.encode, List.append_assoc, List.append_assoc] at text
    rw [Field.encode, List.length_append, List.length_append, ← Nat.add_assoc, ← Nat.add_assoc] at before after
    have behindTag := drop_of_drop text
    have skipTag := varintSkip_complete tag.property text (show tag.val.length ≤ fin - pos by omega)
    have skipLength := varintSkip_complete length.property behindTag
      (show length.val.length ≤ fin - (pos + tag.val.length) by omega)
    have taken : (input.drop (pos + tag.val.length)).take (pos + tag.val.length + length.val.length -
        (pos + tag.val.length)) = length.val := by
      rw [behindTag, Nat.add_sub_cancel_left, List.take_left]
    have string : (Field.string tag length content type counts).tag.getD 0 0 &&& 0x7 = 2 := type
    have not_number : ¬ (Field.string tag length content type counts).tag.getD 0 0 &&& 0x7 = 0 := by
      rw [string]
      decide
    have fits : ¬ content.val.length > fin - (pos + tag.val.length + length.val.length) := by omega
    simp only [if_neg not_number, if_pos string, skipTag, skipLength, taken]
    rw [varintDecode_eq (by decide), counts, Nat.mod_eq_of_lt content.property, if_neg fits]
    exact after

/-! ### Turns of the loop -/

/-- The known tags are tried one behind the other. -/
inductive Tries : (tags : List UInt8) → (fields taken left : List Field) → Prop
  | nil {fields : List Field} : Tries [] fields [] fields
  | cons {tag : UInt8} {tags : List UInt8} {fields taken between taken' left : List Field} :
      Takes tag fields taken between → Tries tags between taken' left → Tries (tag :: tags) fields (taken ++ taken') left

namespace Tries

variable {tags : List UInt8} {fields taken left : List Field}

theorem append (tries : Tries tags fields taken left) : fields = taken ++ left := by
  induction tries with
  | nil => rfl
  | cons takes _ ih =>
    rw [ih] at takes
    cases takes with
    | known => rfl
    | other => rfl

/-- If no field was taken, the first one has none of the tags. -/
theorem unknown (tries : Tries tags fields taken left) (none : taken = []) :
    ∀ field ∈ fields.head?, ∀ tag ∈ tags, field.tag ≠ [tag] := by
  induction tries with
  | nil => exact fun _ _ _ none => nomatch none
  | cons takes _ ih =>
    obtain ⟨first, later⟩ := List.append_eq_nil_iff.mp none
    intro field head tag member
    cases takes with
    | known => cases first
    | other other =>
      rcases List.mem_cons.mp member with rfl | member
      · exact other field head
      · exact ih later field head tag member

end Tries

theorem Takes.keep {tag tag' : UInt8} {fields taken left done : List Field} (takes : Takes tag fields taken left)
    (ne : tag' ≠ tag) {report : Option Value} (reports : report = lastValue done tag') :
    report = lastValue (done ++ taken) tag' := by
  rw [lastValue_append_other (takes.other_tag ne)]
  exact reports

/-- A decoder whose turns try the known tags and report the last field of each. -/
structure Follows {Results : Type} (input : Bytes) (fin : Nat) (known : List UInt8)
    (decode : Nat → Results → Nat × Results) (report : Results → List (Option Value)) : Prop where
  turn : ∀ {pos : Nat} {fields done : List Field} {results : Results}, At input fin pos fields →
    report results = known.map (lastValue done) →
    ∃ taken left, Tries known fields taken left ∧ At input fin (decode pos results).1 left ∧
      report (decode pos results).2 = known.map (lastValue (done ++ taken))

theorem Follows.decodeFields_at {Results : Type} {known : List UInt8} {decode : Nat → Results → Nat × Results}
    {report : Results → List (Option Value)} (follows : Follows input fin known decode report) {fuel : Nat}
    {fields done : List Field} {results : Results} (left : At input fin pos fields) (enough : fields.length ≤ fuel)
    (reports : report results = known.map (lastValue done)) :
    report (decodeFields input fin decode fuel pos results) = known.map (lastValue (done ++ fields)) := by
  induction fuel generalizing pos fields done results with
  | zero =>
    obtain rfl := List.length_eq_zero_iff.mp (Nat.le_zero.mp enough)
    rw [List.append_nil]
    exact reports
  | succ fuel ih =>
    cases fields with
    | nil =>
      rw [left.eq_fin, decodeFields_fin, List.append_nil]
      exact reports
    | cons field rest =>
      obtain ⟨taken, left', tries, after, reports'⟩ := follows.turn left reports
      have whole := tries.append
      have here := left.fin
      have there := after.fin
      have counted : (encode (field :: rest)).length = (encode taken).length + (encode left').length := by
        rw [whole, encode_append, List.length_append]
      rw [decodeFields_succ input left.ne_fin, turnEnd]
      cases taken with
      | nil =>
        obtain rfl : field :: rest = left' := whole
        rw [if_pos (by omega)]
        rw [List.append_nil] at reports'
        have unknown := tries.unknown rfl field rfl
        have passed : known.map (lastValue (done ++ [field])) = known.map (lastValue done) :=
          List.map_congr_left fun tag member => lastValue_append_other
            (fun field' only => List.mem_singleton.mp only ▸ unknown tag member) done
        rw [show done ++ field :: rest = done ++ [field] ++ rest by simp]
        exact ih (skipUnknown_at left) (by rw [List.length_cons] at enough; omega) (reports'.trans passed.symm)
      | cons first taken =>
        have some := first.length_encode_pos
        rw [encode_cons first taken, List.length_append] at counted
        have fewer := congrArg List.length whole
        rw [List.length_append, List.length_cons (a := first)] at fewer
        rw [if_neg (by omega), whole, ← List.append_assoc]
        exact ih after (by omega) reports'

theorem length_le_encode (fields : List Field) : fields.length ≤ (encode fields).length := by
  induction fields with
  | nil => exact Nat.le_refl 0
  | cons field fields ih =>
    have some := field.length_encode_pos
    rw [encode_cons, List.length_append, List.length_cons]
    omega

/-! ### The three decoders -/

def messageTags : List UInt8 := [ratchetKeyTag, counterTag, ciphertextTag]

def preKeyMessageTags : List UInt8 := [oneTimeKeyIdTag, baseKeyTag, identityKeyTag, messageTag]

def groupMessageTags : List UInt8 := [groupMessageIndexTag, groupCiphertextTag]

def messageReport (input : Bytes) (reader : MessageReader) : List (Option Value) :=
  [stringReport input reader.ratchetKey, intReport reader.counter, stringReport input reader.ciphertext]

def preKeyMessageReport (input : Bytes) (reader : PreKeyMessageReader) : List (Option Value) :=
  [stringReport input reader.oneTimeKey, stringReport input reader.baseKey, stringReport input reader.identityKey,
    stringReport input reader.message]

def foundReport (input : Bytes) (found : IntField × Option Span) : List (Option Value) :=
  [intReport found.1, stringReport input found.2]

def groupMessageReport (input : Bytes) (results : GroupMessageResults) : List (Option Value) :=
  foundReport input (⟨results.messageIndex, results.hasMessageIndex⟩, results.ciphertext)

theorem decodeMessageFields_follows (input : Bytes) (fin : Nat) :
    Follows input fin messageTags (decodeMessageFields input fin) (messageReport input) where
  turn := by
    intro pos fields done reader left reports
    simp only [messageReport, messageTags, List.map_cons, List.map_nil, List.cons.injEq, and_true] at reports
    obtain ⟨key, counter, text⟩ := reports
    obtain ⟨taken₁, left₁, takes₁, after₁, key⟩ := decodeString_at (by decide) (by decide) left key
    obtain ⟨taken₂, left₂, takes₂, after₂, counter⟩ :=
      decodeInt_at (by decide) (by decide) after₁ (takes₁.keep (by decide) counter)
    obtain ⟨taken₃, left₃, takes₃, after₃, text⟩ := decodeString_at (by decide) (by decide) after₂
      (takes₂.keep (by decide) (takes₁.keep (by decide) text))
    refine ⟨_, left₃, .cons takes₁ (.cons takes₂ (.cons takes₃ .nil)), after₃, ?_⟩
    simp only [messageReport, messageTags, List.map_cons, List.map_nil, List.append_nil, ← List.append_assoc]
    rw [← takes₃.keep (by decide) (takes₂.keep (by decide) key), ← takes₃.keep (by decide) counter, ← text]
    rfl

theorem decodeOneTimeKeyFields_follows (input : Bytes) (fin : Nat) :
    Follows input fin preKeyMessageTags (decodeOneTimeKeyFields input fin) (preKeyMessageReport input) where
  turn := by
    intro pos fields done reader left reports
    simp only [preKeyMessageReport, preKeyMessageTags, List.map_cons, List.map_nil, List.cons.injEq, and_true]
      at reports
    obtain ⟨oneTime, base, identity, text⟩ := reports
    obtain ⟨taken₁, left₁, takes₁, after₁, oneTime⟩ := decodeString_at (by decide) (by decide) left oneTime
    obtain ⟨taken₂, left₂, takes₂, after₂, base⟩ :=
      decodeString_at (by decide) (by decide) after₁ (takes₁.keep (by decide) base)
    obtain ⟨taken₃, left₃, takes₃, after₃, identity⟩ := decodeString_at (by decide) (by decide) after₂
      (takes₂.keep (by decide) (takes₁.keep (by decide) identity))
    obtain ⟨taken₄, left₄, takes₄, after₄, text⟩ := decodeString_at (by decide) (by decide) after₃
      (takes₃.keep (by decide) (takes₂.keep (by decide) (takes₁.keep (by decide) text)))
    refine ⟨_, left₄, .cons takes₁ (.cons takes₂ (.cons takes₃ (.cons takes₄ .nil))), after₄, ?_⟩
    simp only [preKeyMessageReport, preKeyMessageTags, List.map_cons, List.map_nil, List.append_nil,
      ← List.append_assoc]
    rw [← takes₄.keep (by decide) (takes₃.keep (by decide) (takes₂.keep (by decide) oneTime)),
      ← takes₄.keep (by decide) (takes₃.keep (by decide) base), ← takes₄.keep (by decide) identity, ← text]
    rfl

theorem decodeGroupFields_follows (input : Bytes) (fin : Nat) :
    Follows input fin groupMessageTags (decodeGroupFields input fin) (foundReport input) where
  turn := by
    intro pos fields done found left reports
    simp only [foundReport, groupMessageTags, List.map_cons, List.map_nil, List.cons.injEq, and_true] at reports
    obtain ⟨index, text⟩ := reports
    obtain ⟨taken₁, left₁, takes₁, after₁, index⟩ := decodeInt_at (by decide) (by decide) left index
    obtain ⟨taken₂, left₂, takes₂, after₂, text⟩ :=
      decodeString_at (by decide) (by decide) after₁ (takes₁.keep (by decide) text)
    refine ⟨_, left₂, .cons takes₁ (.cons takes₂ .nil), after₂, ?_⟩
    simp only [foundReport, groupMessageTags, List.map_cons, List.map_nil, List.append_nil, ← List.append_assoc]
    rw [← takes₂.keep (by decide) index, ← text]
    rfl

/-- What is reported of the known tags is the last field of each, and so it is for every payload that has the same
fields with these tags, in whatever order tags follow each other and whatever unknown fields there are. -/
structure ReportsLast (known : List UInt8) (fields : List Field) (report : List (Option Value)) : Prop where
  last : report = known.map (lastValue fields)
  unaffected : ∀ fields', (∀ tag ∈ known, withTag fields' tag = withTag fields tag) →
    report = known.map (lastValue fields')

theorem reportsLast {known : List UInt8} {fields : List Field} {report : List (Option Value)}
    (last : report = known.map (lastValue fields)) : ReportsLast known fields report where
  last := last
  unaffected fields' same := by
    refine last.trans (List.map_congr_left fun tag member => ?_)
    rw [lastValue, lastValue, same tag member]

/-- A MAC and a signature behind a payload, whose lengths together are a `size_t`. -/
abbrev Trailers := { trailers : Bytes × Bytes // trailers.1.length + trailers.2.length < 2 ^ 64 }

/-- The payload, between the version byte and what follows it. -/
theorem at_payload (version : UInt8) (fields : List Field) (trailer : Bytes) :
    At (version :: (encode fields ++ trailer)) (1 + (encode fields).length) 1 fields where
  text := ⟨trailer, rfl⟩
  fin := rfl

theorem length_message (version : UInt8) (fields : List Field) (trailer : Bytes) :
    (version :: (encode fields ++ trailer)).length = 1 + (encode fields).length + trailer.length := by
  rw [List.length_cons, List.length_append]
  omega

section Decoders

variable (version : UInt8) (fields : List Field)

theorem decodeMessage_payload (mac : Bytes) (stack : MessageReader) :
    (decodeMessage stack (version :: (encode fields ++ mac)) mac.length).version = version ∧
      messageReport (version :: (encode fields ++ mac))
          (decodeMessage stack (version :: (encode fields ++ mac)) mac.length) =
        messageTags.map (lastValue fields) := by
  have length := length_message version fields mac
  have few := length_le_encode fields
  have left := at_payload version fields mac
  have first : (version :: (encode fields ++ mac)).getD 0 0 = version := List.getD_cons_zero
  obtain ⟨input, hinput⟩ : ∃ input, version :: (encode fields ++ mac) = input := ⟨_, rfl⟩
  rw [hinput] at length left first ⊢
  have fin : input.length - mac.length = 1 + (encode fields).length := by omega
  rw [decodeMessage, if_neg (by omega), fin, if_neg (by omega), first]
  constructor
  · have same : Advances (1 + (encode fields).length) (decodeMessageFields input (1 + (encode fields).length))
        fun reader => reader.version = version :=
      ⟨(decodeMessageFields_advances input _).reaches, fun _ _ _ same => same⟩
    exact same.decodeFields_keeps input _ left.le rfl
  · exact (decodeMessageFields_follows input _).decodeFields_at left (by omega)
      (show messageReport input _ = messageTags.map (lastValue []) from rfl)

theorem decodeOneTimeKeyMessage_payload (stack : PreKeyMessageReader) :
    (decodeOneTimeKeyMessage stack (version :: encode fields)).version = version ∧
      preKeyMessageReport (version :: encode fields) (decodeOneTimeKeyMessage stack (version :: encode fields)) =
        preKeyMessageTags.map (lastValue fields) := by
  have length := length_message version fields []
  have few := length_le_encode fields
  have left := at_payload version fields []
  have first : (version :: encode fields).getD 0 0 = version := List.getD_cons_zero
  rw [List.append_nil] at length left
  rw [List.length_nil, Nat.add_zero] at length
  obtain ⟨input, hinput⟩ : ∃ input, version :: encode fields = input := ⟨_, rfl⟩
  rw [hinput] at length left first ⊢
  rw [decodeOneTimeKeyMessage, length, if_neg (by omega), first]
  constructor
  · have same : Advances (1 + (encode fields).length) (decodeOneTimeKeyFields input (1 + (encode fields).length))
        fun reader => reader.version = version :=
      ⟨(decodeOneTimeKeyFields_advances input _).reaches, fun _ _ _ same => same⟩
    exact same.decodeFields_keeps input _ left.le rfl
  · exact (decodeOneTimeKeyFields_follows input _).decodeFields_at left (by omega)
      (show preKeyMessageReport input _ = preKeyMessageTags.map (lastValue []) from rfl)

theorem decodeGroupMessage_payload {mac signature : Bytes} (short : mac.length + signature.length < 2 ^ 64)
    (stack : GroupMessageResults) :
    (decodeGroupMessage stack (version :: (encode fields ++ (mac ++ signature))) mac.length signature.length).version =
        version ∧
      groupMessageReport (version :: (encode fields ++ (mac ++ signature)))
          (decodeGroupMessage stack (version :: (encode fields ++ (mac ++ signature))) mac.length signature.length) =
        groupMessageTags.map (lastValue fields) := by
  have length := length_message version fields (mac ++ signature)
  have few := length_le_encode fields
  have left := at_payload version fields (mac ++ signature)
  have first : (version :: (encode fields ++ (mac ++ signature))).getD 0 0 = version := List.getD_cons_zero
  obtain ⟨input, hinput⟩ : ∃ input, version :: (encode fields ++ (mac ++ signature)) = input := ⟨_, rfl⟩
  rw [List.length_append] at length
  rw [hinput] at length left first ⊢
  have fin : input.length - (mac.length + signature.length) = 1 + (encode fields).length := by omega
  rw [decodeGroupMessage, Nat.mod_eq_of_lt short, if_neg (by omega), fin, if_neg (by omega), first]
  exact ⟨rfl, (decodeGroupFields_follows input _).decodeFields_at left (by omega)
    (show foundReport input (⟨0, false⟩, none) = groupMessageTags.map (lastValue []) from rfl)⟩

end Decoders

/-- The decoders agree with the grammar of payloads. -/
theorem decoders_report_last :
    (∀ (version : UInt8) (fields : List Field) (mac : Bytes) (stack : MessageReader),
      (decodeMessage stack (version :: (encode fields ++ mac)) mac.length).version = version ∧
        ReportsLast messageTags fields (messageReport (version :: (encode fields ++ mac))
          (decodeMessage stack (version :: (encode fields ++ mac)) mac.length))) ∧
    (∀ (version : UInt8) (fields : List Field) (stack : PreKeyMessageReader),
      (decodeOneTimeKeyMessage stack (version :: encode fields)).version = version ∧
        ReportsLast preKeyMessageTags fields (preKeyMessageReport (version :: encode fields)
          (decodeOneTimeKeyMessage stack (version :: encode fields)))) ∧
    ∀ (version : UInt8) (fields : List Field) (trailers : Trailers) (stack : GroupMessageResults),
      (decodeGroupMessage stack (version :: (encode fields ++ (trailers.val.1 ++ trailers.val.2)))
          trailers.val.1.length trailers.val.2.length).version = version ∧
        ReportsLast groupMessageTags fields
          (groupMessageReport (version :: (encode fields ++ (trailers.val.1 ++ trailers.val.2)))
            (decodeGroupMessage stack (version :: (encode fields ++ (trailers.val.1 ++ trailers.val.2)))
              trailers.val.1.length trailers.val.2.length)) := by
  refine ⟨?normal, ?preKey, ?group⟩
  case normal =>
    intro version fields mac stack
    obtain ⟨same, last⟩ := decodeMessage_payload version fields mac stack
    exact ⟨same, reportsLast last⟩
  case preKey =>
    intro version fields stack
    obtain ⟨same, last⟩ := decodeOneTimeKeyMessage_payload version fields stack
    exact ⟨same, reportsLast last⟩
  case group =>
    rintro version fields ⟨⟨mac, signature⟩, short⟩ stack
    obtain ⟨same, last⟩ := decodeGroupMessage_payload version fields short stack
    exact ⟨same, reportsLast last⟩

end Payload

end RubyOlm

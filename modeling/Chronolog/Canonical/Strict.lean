import Chronolog.Canonical.Encodings
import Chronolog.Canonical.Limits

/-!
# What the decoder accepts

The strict decoder is meant to accept no bytes but those that the encoder writes. It does,
except for one step: the platform takes a byte order mark off the beginning of a text, and the
decoder does not compare the text with its bytes. The texts are found by a scan of the heads
(`textStrings`), and the bytes are the encoding of what was decoded if and only if none of them
begins with a byte order mark (`decoded_canonical_iff_unmarked`).
-/

namespace Chronolog.Canonical

open Procedure List

variable {word : Bytes} {limits : DecodeLimits}

/-! ## The texts of an encoding -/

/-- The payloads of the texts, found by a scan of the heads. -/
def textStrings : Bytes → List Bytes
  | [] => []
  | initial :: input =>
    if initial.toNat >>> 5 = 7 then textStrings input
    else
      match _h : Decoder.argument (initial.toNat &&& 31) input with
      | .error _ _ => []
      | .ok size rest =>
        if initial.toNat >>> 5 = 3 then rest.take size :: textStrings (rest.drop size)
        else if initial.toNat >>> 5 = 2 then textStrings (rest.drop size)
        else textStrings rest
termination_by input => input.length
decreasing_by
  · exact Nat.lt_succ_self _
  all_goals
    obtain ⟨word, rfl, _⟩ := Decoder.takes_argument _ _ _ _ _h
    simp only [length_cons, length_append, length_drop]
    omega

/-- None of the texts begins with a byte order mark. -/
def Unmarked (input : Bytes) : Prop := ∀ text ∈ textStrings input, ¬byteOrderMark <+: text

/-- A word after which the scan goes on. -/
def Splits (word : Bytes) : Prop :=
  ∀ rest, textStrings (word ++ rest) = textStrings word ++ textStrings rest

theorem textStrings_nil : textStrings [] = [] := by rw [textStrings]

theorem splits_nil : Splits [] := by
  intro rest
  rw [textStrings_nil]
  rfl

theorem Splits.append {word word' : Bytes} (h : Splits word) (h' : Splits word') :
    Splits (word ++ word') := by
  intro rest
  rw [append_assoc, h, h', h, append_assoc]

theorem Splits.unmarked_append_iff {word word' : Bytes} (h : Splits word) :
    Unmarked (word ++ word') ↔ Unmarked word ∧ Unmarked word' := by
  rw [Unmarked, h, forall_mem_append]
  rfl

/-- The scan of a head: texts and byte strings are skipped. -/
theorem textStrings_head {major size : ℕ} {head : Bytes} (hmajor : major < 7)
    (h : encodeHead major size = .ok head) (rest : Bytes) : textStrings (head ++ rest) =
      if major = 3 then rest.take size :: textStrings (rest.drop size)
      else if major = 2 then textStrings (rest.drop size) else textStrings rest := by
  obtain ⟨additional, tail, rfl, hadditional, hreads⟩ := Decoder.reads_argument h
  rw [cons_append, textStrings, major_initialByte (by omega) hadditional,
    if_neg (by omega)]
  split
  · rename_i hrun
    rw [additional_initialByte (by omega) hadditional, hreads rest] at hrun
    cases hrun
  · rename_i hrun
    rw [additional_initialByte (by omega) hadditional, hreads rest] at hrun
    cases hrun
    rfl

/-- A word that holds the given texts. -/
theorem splits_of_forall {texts : List Bytes}
    (h : ∀ rest, textStrings (word ++ rest) = texts ++ textStrings rest) :
    Splits word ∧ textStrings word = texts := by
  have hword := h []
  rw [append_nil, textStrings_nil, append_nil] at hword
  refine ⟨fun rest => ?_, hword⟩
  rw [h, hword]

section Words

variable {size : ℕ} {head : Bytes}

/-- A head that no payload follows. -/
theorem splits_head {major : ℕ} (hmajor : major < 7) (hpayload : major ≠ 2 ∧ major ≠ 3)
    (h : encodeHead major size = .ok head) : Splits head ∧ textStrings head = [] := by
  refine splits_of_forall fun rest => ?_
  rw [textStrings_head hmajor h, if_neg hpayload.2, if_neg hpayload.1, nil_append]

theorem splits_bytes {payload : Bytes} (h : encodeHead 2 payload.length = .ok head) :
    Splits (head ++ payload) ∧ textStrings (head ++ payload) = [] := by
  refine splits_of_forall fun rest => ?_
  rw [append_assoc, textStrings_head (by decide) h, if_neg (by decide), if_pos rfl,
    drop_left, nil_append]

theorem splits_text {payload : Bytes} (h : encodeHead 3 payload.length = .ok head) :
    Splits (head ++ payload) ∧ textStrings (head ++ payload) = [payload] := by
  refine splits_of_forall fun rest => ?_
  rw [append_assoc, textStrings_head (by decide) h, if_pos rfl, take_left,
    drop_left, singleton_append]

end Words

/-! ## Encodings are unmarked -/

/-- The scan goes on after the word, and the word has no text with a byte order mark. -/
def Plain (word : Bytes) : Prop := Splits word ∧ Unmarked word

theorem Plain.append {word word' : Bytes} (h : Plain word) (h' : Plain word') :
    Plain (word ++ word') :=
  ⟨h.1.append h'.1, h.1.unmarked_append_iff.2 ⟨h.2, h'.2⟩⟩

theorem plain_flatten {words : List Bytes} (h : ∀ word ∈ words, Plain word) :
    Plain words.flatten := by
  induction words with
  | nil => exact ⟨splits_nil, by simp [Unmarked, textStrings_nil]⟩
  | cons word words ih =>
    obtain ⟨hword, hwords⟩ := forall_mem_cons.1 h
    exact hword.append (ih hwords)

theorem plain_of_textStrings (h : Splits word ∧ textStrings word = []) : Plain word := by
  refine ⟨h.1, ?_⟩
  rw [Unmarked, h.2]
  exact forall_mem_nil _

theorem plain_simple {initial : UInt8} (h : initial.toNat >>> 5 = 7) : Plain [initial] :=
  plain_of_textStrings (splits_of_forall fun rest => by
    rw [singleton_append, textStrings, if_pos h, nil_append])

theorem plain_head {major size : ℕ} {head : Bytes} (h : encodeHead major size = .ok head)
    (hmajor : major < 7) (hpayload : major ≠ 2 ∧ major ≠ 3) : Plain head :=
  plain_of_textStrings (splits_head hmajor hpayload h)

theorem plain_of_encodeBigint {value : ℤ} (h : encodeBigint value = .ok word) : Plain word := by
  obtain ⟨negative, magnitude, rfl⟩ := exists_signed value
  rcases encodeBigint_eq_ok_iff.1 h with ⟨_, hhead⟩ | ⟨_, tag, htag, head, hhead, rfl⟩
  · cases negative with
    | true => exact plain_head hhead (by decide) (by decide)
    | false => exact plain_head hhead (by decide) (by decide)
  · exact (plain_head htag (by decide) (by decide)).append (plain_of_textStrings (splits_bytes hhead))

theorem plain_of_encodeBytes {value word : Bytes} (h : encodeBytes value = .ok word) :
    Plain word := by
  obtain ⟨head, hhead, rfl⟩ := encodeBytes_eq_ok_iff.1 h
  exact plain_of_textStrings (splits_bytes hhead)

theorem plain_of_encodeText {value : String} (h : encodeText value = .ok word) : Plain word := by
  obtain ⟨bytes, hbytes, head, hhead, rfl⟩ := encodeText_eq_ok_iff.1 h
  obtain ⟨hsplits, htexts⟩ := splits_text hhead
  refine ⟨hsplits, ?_⟩
  rw [Unmarked, htexts, forall_mem_singleton]
  exact (utf8_eq_ok_iff.1 hbytes).2

theorem plain_of_encodeKey {key : CborMapKey} (h : encodeKey key = .ok word) : Plain word := by
  cases key with
  | integer value => exact plain_of_encodeBigint h
  | text value => exact plain_of_encodeText h
  | bytes value => exact plain_of_encodeBytes h

/-- The encoder writes no text with a byte order mark. -/
theorem plain_of_encodeCanonicalCbor {value : CborValue}
    (h : encodeCanonicalCbor value = .ok word) : Plain word := by
  induction value using CborValue.induction generalizing word with
  | null =>
    cases h
    exact plain_simple rfl
  | boolean value =>
    cases value with
    | true =>
      cases h
      exact plain_simple rfl
    | false =>
      cases h
      exact plain_simple rfl
  | integer value => exact plain_of_encodeBigint h
  | text value => exact plain_of_encodeText h
  | bytes value => exact plain_of_encodeBytes h
  | array items ih =>
    obtain ⟨head, hhead, words, hwords, rfl⟩ := encode_array_eq_ok_iff.1 h
    refine (plain_head hhead (by decide) (by decide)).append (plain_flatten fun word hword => ?_)
    obtain ⟨item, hitem, hencode⟩ := Pointwise.exists_of_mem_right hwords hword
    exact ih item hitem hencode
  | map entries ih =>
    obtain ⟨words, hwords, _, head, hhead, rfl⟩ := encode_map_eq_ok_iff.1 h
    refine (plain_head hhead (by decide) (by decide)).append ?_
    refine plain_flatten (forall_mem_map.2 fun word hword => ?_)
    -- The sort only moves the words.
    obtain ⟨entry, hentry, hencodes⟩ :=
      Pointwise.exists_of_mem_right hwords ((mem_insertionSort _).1 hword)
    exact (plain_of_encodeKey hencodes.1).append (ih entry hentry hencodes.2)

/-! ## What is taken off the input -/

/-- The word is the encoding of the value, which is within the limits, if its texts are unmarked. -/
def Accepts (limits : DecodeLimits) (levels : ℕ) (value : CborValue) (word : Bytes) : Prop :=
  Splits word ∧
    (Unmarked word → encodeCanonicalCbor value = .ok word ∧ Fits limits levels value)

theorem Accepts.of_encode {levels : ℕ} {value : CborValue}
    (h : encodeCanonicalCbor value = .ok word) (hfits : Fits limits levels value) :
    Accepts limits levels value word :=
  ⟨(plain_of_encodeCanonicalCbor h).1, fun _ => ⟨h, hfits⟩⟩

namespace Decoder

variable (limits : DecodeLimits) (levels : ℕ)
variable {nested : Decoder CborValue}

theorem takes_simple {initial : UInt8} (h : initial.toNat >>> 5 = 7) :
    Takes (simple (initial.toNat &&& 31)) fun value word =>
      Accepts limits (levels + 1) value ([initial] ++ word) := by
  have hinitial := initialByte_toNat initial
  rw [h] at hinitial
  refine takes_ite (fun h₁ => takes_pure ?_) fun _ => ?_
  · rw [h₁] at hinitial
    exact .of_encode (congrArg (fun byte => Except.ok [byte]) hinitial) ⟨trivial, trivial⟩
  refine takes_ite (fun h₂ => takes_pure ?_) fun _ => ?_
  · rw [h₂] at hinitial
    exact .of_encode (congrArg (fun byte => Except.ok [byte]) hinitial) ⟨trivial, trivial⟩
  refine takes_ite (fun h₃ => takes_pure ?_) fun _ => takes_throw _
  rw [h₃] at hinitial
  exact .of_encode (congrArg (fun byte => Except.ok [byte]) hinitial) ⟨trivial, trivial⟩

variable {head : Bytes}

/-- The payload of a tag is accepted only as the encoder writes it. -/
theorem takes_bignum {tag : ℕ} (h : encodeHead 6 tag = .ok head) :
    Takes (bignum limits tag levels) fun value word =>
      Accepts limits (levels + 1) (.integer value) (head ++ word) := by
  refine takes_invariant_bind fun htag => takes_invariant_bind fun hroom => takes_byte.bind ?_
  rintro initial word rfl
  refine takes_invariant_bind fun hmajor => (takes_argument _).bind fun size tail hsize => ?_
  refine takes_invariant_bind fun hsafe => takes_invariant_bind fun hlimit =>
    (takes_bytes size).bind ?_
  rintro payload word ⟨rfl, rfl⟩
  refine takes_invariant_bind fun hminimal => takes_invariant_bind fun hbig => takes_pure ?_
  -- The head of the payload is the one that the encoder writes.
  have hinitial := initialByte_toNat initial
  rw [of_decide_eq_true hmajor] at hinitial
  have hpayload := hsize 2
  rw [hinitial] at hpayload
  have hword : BigEndian.minimalBytes (BigEndian.ofBytes word) = word := by
    cases word with
    | nil => cases (of_decide_eq_true hminimal).1
    | cons byte bytes =>
      refine BigEndian.minimalBytes_ofBytes fun hzero => ?_
      exact (of_decide_eq_true hminimal).2 (congrArg some hzero)
  refine .of_encode (encodeBigint_eq_ok_iff.2 (.inr ⟨of_decide_eq_true hbig, head, ?_,
    initial :: tail, ?_, ?_⟩)) ⟨fun _ => ?_, fun _ => of_decide_eq_true hroom⟩
  · rcases of_decide_eq_true htag with rfl | rfl
    · exact h
    · exact h
  · rw [hword]
    exact hpayload
  · rw [hword, append_nil]
    rfl
  · rw [magnitude_signed, hword]
    exact ⟨of_decide_eq_true hlimit, of_decide_eq_true hsafe⟩

variable {limits levels}

/-- The items of an array. -/
theorem takes_items (h : Takes nested (Accepts limits levels)) (size : ℕ) :
    Takes (items nested size) fun values word => values.length = size ∧ Splits word ∧
      (Unmarked word → (∃ words, Forall₂ EncodesItem values words ∧ words.flatten = word) ∧
        ∀ value ∈ values, Fits limits levels value) := by
  induction size with
  | zero =>
    exact takes_pure ⟨rfl, splits_nil, fun _ => ⟨⟨[], .nil, rfl⟩, forall_mem_nil _⟩⟩
  | succ size ih =>
    refine h.bind fun value word hvalue => ih.bind ?_
    rintro values word' ⟨rfl, hsplits, hvalues⟩
    refine takes_pure ⟨rfl, ?_, fun hunmarked => ?_⟩
    · rw [append_nil]
      exact hvalue.1.append hsplits
    · rw [append_nil] at hunmarked ⊢
      obtain ⟨hword, hword'⟩ := hvalue.1.unmarked_append_iff.1 hunmarked
      obtain ⟨hencode, hfits⟩ := hvalue.2 hword
      obtain ⟨⟨words, hwords, rfl⟩, hfits'⟩ := hvalues hword'
      exact ⟨⟨word :: words, .cons hencode hwords, rfl⟩, forall_mem_cons.2 ⟨hfits, hfits'⟩⟩

theorem asKey_eq_ok {value : CborValue} {key : CborMapKey} {input rest : Bytes}
    (h : asKey value input = .ok key rest) : value = key.toValue ∧ input = rest := by
  cases value with
  | integer value | text value | bytes value =>
    cases h
    exact ⟨rfl, rfl⟩
  | null | boolean value | array items | map entries => cases h

/-- The word is made of the encodings of entries, if its texts are unmarked. Their keys are in
    strict order after the key before them, and they are set in the map one after the other. -/
def AcceptsEntries (limits : DecodeLimits) (levels size : ℕ) (map : List (CborMapKey × CborValue))
    (previous : Option Bytes) (values : List (CborMapKey × CborValue)) (word : Bytes) : Prop :=
  Splits word ∧ (Unmarked word → ∃ added words, Forall₂ EncodesEntry added words ∧
    words.length = size ∧ words.flatMap (fun entry => entry.1 ++ entry.2) = word ∧
    (previous.toList ++ words.map Prod.fst).IsChain KeyLt ∧
    (∀ entry ∈ added, Fits limits levels entry.1.toValue ∧ Fits limits levels entry.2) ∧
    values = added.foldl (fun map entry => OrdMap.upsert entry.1 entry.2 map) map)

theorem acceptsEntries_zero (map : List (CborMapKey × CborValue)) (previous : Option Bytes) :
    AcceptsEntries limits levels 0 map previous map [] := by
  refine ⟨splits_nil, fun _ => ⟨[], [], .nil, rfl, rfl, ?_, forall_mem_nil _, rfl⟩⟩
  cases previous with
  | none => exact .nil
  | some previous => exact .singleton previous

theorem AcceptsEntries.cons {size : ℕ} {map values : List (CborMapKey × CborValue)}
    {previous : Option Bytes} {key : CborMapKey} {value : CborValue}
    {keyWord valueWord word : Bytes} (hkey : Accepts limits levels key.toValue keyWord)
    (hprevious : previous.all fun previous => KeyLe previous keyWord ∧ previous ≠ keyWord)
    (hvalue : Accepts limits levels value valueWord)
    (h : AcceptsEntries limits levels size (OrdMap.upsert key value map) (some keyWord) values
      word) : AcceptsEntries limits levels (size + 1) map previous values
      (keyWord ++ (valueWord ++ word)) := by
  refine ⟨hkey.1.append (hvalue.1.append h.1), fun hunmarked => ?_⟩
  obtain ⟨hkeyUnmarked, hunmarked⟩ := hkey.1.unmarked_append_iff.1 hunmarked
  obtain ⟨hvalueUnmarked, hunmarked⟩ := hvalue.1.unmarked_append_iff.1 hunmarked
  obtain ⟨added, words, hadded, rfl, rfl, hchain, hfits, rfl⟩ := h.2 hunmarked
  obtain ⟨hencode, hkeyFits⟩ := hkey.2 hkeyUnmarked
  obtain ⟨hencode', hvalueFits⟩ := hvalue.2 hvalueUnmarked
  rw [encodeCanonicalCbor_toValue] at hencode
  refine ⟨(key, value) :: added, (keyWord, valueWord) :: words, .cons ⟨hencode, hencode'⟩ hadded,
    rfl, append_assoc .., ?_, forall_mem_cons.2 ⟨⟨hkeyFits, hvalueFits⟩, hfits⟩, rfl⟩
  cases previous with
  | none => exact hchain
  | some previous => exact isChain_cons_cons.2 ⟨of_decide_eq_true hprevious, hchain⟩

theorem takes_entries (h : Takes nested (Accepts limits levels))
    (size : ℕ) (map : List (CborMapKey × CborValue)) (previous : Option Bytes) :
    Takes (entries nested size map previous) (AcceptsEntries limits levels size map previous) := by
  induction size generalizing map previous with
  | zero => exact takes_pure (acceptsEntries_zero map previous)
  | succ size ih =>
    intro input values rest hrun
    rw [entries, bind_get_run] at hrun
    obtain ⟨keyValue, input₁, hkeyValue, hrun⟩ := bind_run_eq_ok_iff.1 hrun
    obtain ⟨key, input₂, hkey, hrun⟩ := bind_run_eq_ok_iff.1 hrun
    obtain ⟨rfl, rfl⟩ := asKey_eq_ok hkey
    obtain ⟨keyWord, rfl, hkey⟩ := h _ _ _ hkeyValue
    -- What was read since the start is the word of the key.
    rw [bind_get_run, length_append, Nat.add_sub_cancel, take_left] at hrun
    obtain ⟨word, rfl, hword⟩ := takes_invariant_bind (R := fun values word =>
        AcceptsEntries limits levels (size + 1) map previous values (keyWord ++ word))
      (fun hprevious => h.bind fun value valueWord hvalue =>
        (ih _ _).weaken fun values word => AcceptsEntries.cons hkey hprevious hvalue) _ _ _ hrun
    exact ⟨keyWord ++ word, (append_assoc ..).symm, hword⟩

/-- Entries set in an empty map are its entries. -/
theorem AcceptsEntries.accepts_map {size : ℕ} {values : List (CborMapKey × CborValue)}
    {head word : Bytes} (hsize : Within limits.maxMapItems size)
    (hhead : encodeHead 5 size = .ok head)
    (h : AcceptsEntries limits levels size [] none values word) :
    Accepts limits (levels + 1) (.map values) (head ++ word) := by
  have hplain := plain_head hhead (by decide) (by decide)
  refine ⟨hplain.1.append h.1, fun hunmarked => ?_⟩
  obtain ⟨added, words, hadded, rfl, rfl, hchain, hfits, rfl⟩ :=
    h.2 (hplain.1.unmarked_append_iff.1 hunmarked).2
  have hpairwise : (words.map Prod.fst).Pairwise KeyLt := isChain_iff_pairwise.1 hchain
  have hnodup : (([] ++ added).map Prod.fst).Nodup := nodup_keys hadded hpairwise
  rw [OrdMap.foldl_upsert hnodup]
  have hsort := sortEntries_eq_self hpairwise
  refine ⟨encode_map_eq_ok_iff.2 ⟨words, hadded, ?_, head, ?_, ?_⟩, fits_map_iff.2 ⟨?_, hfits⟩⟩
  · exact (distinctKeys_eq_true_iff (pairwise_sortEntries words)).2 (hsort.symm ▸ hpairwise)
  · rw [hsort]
    exact hhead
  · rw [hsort]
  · rw [nil_append, hadded.length_eq]
    exact hsize

theorem takes_sized (h : Takes nested (Accepts limits levels)) {major size : ℕ}
    (hmajor : 2 ≤ major ∧ major < 6) (hhead : encodeHead major size = .ok head) :
    Takes (sized limits nested major size) fun value word =>
      Accepts limits (levels + 1) value (head ++ word) := by
  refine takes_invariant_bind fun hsafe => ?_
  have hsafe := of_decide_eq_true hsafe
  refine takes_ite (fun hbytes => ?_) fun hbytes => ?_
  · subst hbytes
    refine takes_invariant_bind fun hlimit => (takes_bytes size).bind ?_
    rintro payload word ⟨rfl, rfl⟩
    refine takes_pure (.of_encode ?_ ⟨⟨of_decide_eq_true hlimit, hsafe⟩, trivial⟩)
    rw [append_nil]
    exact encodeBytes_eq_ok_iff.2 ⟨head, hhead, rfl⟩
  refine takes_ite (fun htext => ?_) fun htext => ?_
  · subst htext
    refine takes_invariant_bind fun hlimit => (takes_bytes size).bind ?_
    rintro payload word ⟨rfl, rfl⟩
    -- The text is not compared with its bytes: this is where a byte order mark is lost.
    cases hdecode : decodeUtf8 word with
    | error e => exact fun _ _ _ hrun => absurd hrun nofun
    | ok text =>
      obtain ⟨hsplits, htexts⟩ := splits_text hhead
      refine takes_pure ⟨?_, fun hunmarked => ?_⟩
      · rw [append_nil]
        exact hsplits
      · rw [append_nil] at hunmarked ⊢
        rw [Unmarked, htexts, forall_mem_singleton] at hunmarked
        have hutf8 := utf8_of_decodeUtf8 hdecode hunmarked
        refine ⟨encodeText_eq_ok_iff.2 ⟨word, hutf8, head, hhead, rfl⟩, ?_, trivial⟩
        rw [Respects, ← (utf8_eq_ok_iff.1 hutf8).1]
        exact ⟨of_decide_eq_true hlimit, hsafe⟩
  refine takes_ite (fun harray => ?_) fun harray => ?_
  · subst harray
    refine takes_invariant_bind fun hlimit => (takes_items h size).bind ?_
    rintro values word ⟨rfl, hsplits, hitems⟩
    have hplain := plain_head hhead (by decide) (by decide)
    refine takes_pure ⟨?_, fun hunmarked => ?_⟩
    · rw [append_nil]
      exact hplain.1.append hsplits
    · rw [append_nil] at hunmarked ⊢
      obtain ⟨⟨words, hwords, rfl⟩, hfits⟩ := hitems (hplain.1.unmarked_append_iff.1 hunmarked).2
      exact ⟨encode_array_eq_ok_iff.2 ⟨head, hhead, words, hwords, rfl⟩,
        fits_array_iff.2 ⟨⟨of_decide_eq_true hlimit, hsafe⟩, hfits⟩⟩
  · obtain rfl : major = 5 := by omega
    refine takes_invariant_bind fun hlimit =>
      (takes_entries h size [] none).bind fun values word hvalues => takes_pure ?_
    rw [append_nil]
    exact hvalues.accepts_map ⟨of_decide_eq_true hlimit, hsafe⟩ hhead

theorem takes_headed (h : Takes nested (Accepts limits levels)) {major argument : ℕ}
    (hmajor : major < 7) (hhead : encodeHead major argument = .ok head) :
    Takes (headed limits levels nested major argument) fun value word =>
      Accepts limits (levels + 1) value (head ++ word) := by
  have hle := (encodeHead_eq_ok_iff.1 hhead).1
  have hfits (negative : Bool) : Fits limits (levels + 1) (.integer (signed negative argument)) :=
    fits_integer ((magnitude_signed negative argument).symm ▸ hle)
  refine takes_ite (fun htag => ?_) fun htag => ?_
  · subst htag
    refine (takes_bignum limits levels hhead).bind fun value word hvalue => takes_pure ?_
    rw [append_nil]
    exact hvalue
  refine takes_ite (fun hpositive => takes_pure ?_) fun hpositive => ?_
  · subst hpositive
    rw [append_nil]
    exact .of_encode (encodeBigint_eq_ok_iff.2 (.inl ⟨hle, hhead⟩)) (hfits false)
  refine takes_ite (fun hnegative => takes_pure ?_) fun hnegative => ?_
  · subst hnegative
    rw [append_nil]
    exact .of_encode (encodeBigint_eq_ok_iff.2 (.inl ⟨hle, hhead⟩)) (hfits true)
  · exact takes_sized h (by omega) hhead

variable (limits levels)

/-- The decoder takes off the input what the encoder writes, up to byte order marks. -/
theorem takes_value : Takes (value limits levels) (Accepts limits levels) := by
  induction levels with
  | zero => exact takes_throw _
  | succ levels ih =>
    refine takes_byte.bind ?_
    rintro initial word rfl
    refine takes_ite (takes_simple limits levels) fun hmajor => ?_
    refine (takes_argument _).bind fun argument tail htail => ?_
    have hhead := htail (initial.toNat >>> 5)
    rw [initialByte_toNat] at hhead
    have hlt : initial.toNat >>> 5 < 8 := by
      rw [Nat.shiftRight_eq_div_pow]
      exact Nat.div_lt_of_lt_mul initial.toNat_lt
    refine (takes_headed ih (by omega) hhead).weaken fun value word hvalue => ?_
    rwa [← append_assoc]

end Decoder

/-! ## Strictness -/

theorem decodeCanonicalCbor_eq_ok_iff {input : Bytes} {value : CborValue} :
    decodeCanonicalCbor input limits = .ok value ↔ input.length ≤ limits.maxBytes ∧
      Decoder.value limits (limits.maxDepth + 1) input = .ok value [] := by
  rw [decodeCanonicalCbor, canonicalInvariant_bind_eq_ok_iff, decide_eq_true_iff]
  refine and_congr_right fun _ => ?_
  cases hrun : Decoder.value limits (limits.maxDepth + 1) input with
  | error e rest => exact iff_of_false nofun nofun
  | ok value' rest =>
    cases rest with
    | nil => exact ⟨fun h => congrArg (EStateM.Result.ok · []) (Except.ok.inj h),
        fun h => congrArg Except.ok (EStateM.Result.ok.inj h).1⟩
    | cons byte rest => exact iff_of_false nofun nofun

/-- Bytes without a byte order mark are decoded strictly, and within the limits. -/
theorem encode_of_decodeCanonicalCbor {input : Bytes} {value : CborValue}
    (h : decodeCanonicalCbor input limits = .ok value) (hunmarked : Unmarked input) :
    encodeCanonicalCbor value = .ok input ∧ Fits limits (limits.maxDepth + 1) value := by
  obtain ⟨_, hrun⟩ := decodeCanonicalCbor_eq_ok_iff.1 h
  obtain ⟨word, rfl, hword⟩ := Decoder.takes_value _ _ _ _ _ hrun
  rw [append_nil] at hunmarked ⊢
  exact hword.2 hunmarked

/-- Bytes that were decoded are the encoding of their value if and only if none of their texts
    begins with a byte order mark. -/
theorem decoded_canonical_iff_unmarked {input : Bytes} {limits : DecodeLimits} {value : CborValue}
    (h : decodeCanonicalCbor input limits = .ok value) : encodeCanonicalCbor value = .ok input ↔
      ∀ text ∈ textStrings input, ¬byteOrderMark <+: text :=
  ⟨fun hencode => (plain_of_encodeCanonicalCbor hencode).2,
    fun hunmarked => (encode_of_decodeCanonicalCbor h hunmarked).1⟩

theorem decoded_canonical_letter :
    decodeCanonicalCbor [0x61, 0x61] defaultDecodeLimits = .ok (.text "a") ∧
      (encodeCanonicalCbor (.text "a") = .ok [0x61, 0x61] ↔
        ∀ text ∈ textStrings [0x61, 0x61], ¬byteOrderMark <+: text) :=
  ⟨rfl, @decoded_canonical_iff_unmarked _ defaultDecodeLimits _ rfl⟩

/-- A text of nothing but a byte order mark is accepted, as the empty text. -/
theorem decoded_marked_text :
    decodeCanonicalCbor [0x63, 0xef, 0xbb, 0xbf] defaultDecodeLimits = .ok (.text "") ∧
      encodeCanonicalCbor (.text "") ≠ .ok [0x63, 0xef, 0xbb, 0xbf] :=
  ⟨rfl, fun h => absurd (Except.ok.inj h) (by decide)⟩

end Chronolog.Canonical

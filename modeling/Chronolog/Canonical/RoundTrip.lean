import Chronolog.Canonical.Strict

/-!
# What the encoder writes is read back

A value that has an encoding is read back from it, by a decoder whose limits the value respects
(`Fits`). Maps are read back with their entries in the order of the encoded keys, so the
value that is read is the one that was written up to the order of the entries of its maps
(`Same`), and if they are in this order already (`InOrder`), then it is the one that was written.
It follows that values with one encoding are the same.
-/

namespace Chronolog.Canonical

open Procedure BigEndian List

/-! ## Maps as finite maps -/

/-- Values that differ in the order of the entries of maps only. -/
inductive Same : CborValue → CborValue → Prop
  | refl (value) : Same value value
  | trans {first second third} : Same first second → Same second third → Same first third
  | item {value value'} (before after) : Same value value' →
      Same (.array (before ++ value :: after)) (.array (before ++ value' :: after))
  | entry {value value'} (before key after) : Same value value' →
      Same (.map (before ++ (key, value) :: after)) (.map (before ++ (key, value') :: after))
  | perm {entries entries'} : entries.Perm entries' → Same (.map entries) (.map entries')

theorem Same.symm {value value' : CborValue} (h : Same value value') : Same value' value := by
  induction h with
  | refl value => exact .refl value
  | trans _ _ ih ih' => exact ih'.trans ih
  | item before after _ ih => exact .item before after ih
  | entry before key after _ ih => exact .entry before key after ih
  | perm h => exact .perm h.symm

theorem same_array {items items' : List CborValue} (h : Forall₂ Same items items') :
    Same (.array items) (.array items') := by
  -- The items are replaced one by one, from the first one on.
  suffices ∀ before, Same (.array (before ++ items)) (.array (before ++ items')) from this []
  induction h with
  | nil => exact fun before => .refl _
  | @cons item item' items items' hitem _ ih =>
    intro before
    have hrest := ih (before ++ [item'])
    rw [append_assoc, append_assoc] at hrest
    exact (Same.item before items hitem).trans hrest

/-- The entries have the same key, and the same value. -/
abbrev SameEntry (entry entry' : CborMapKey × CborValue) : Prop :=
  entry.1 = entry'.1 ∧ Same entry.2 entry'.2

theorem same_map {entries entries' : List (CborMapKey × CborValue)}
    (h : Forall₂ SameEntry entries entries') : Same (.map entries) (.map entries') := by
  suffices ∀ before, Same (.map (before ++ entries)) (.map (before ++ entries')) from this []
  induction h with
  | nil => exact fun before => .refl _
  | @cons entry entry' entries entries' hentry _ ih =>
    intro before
    obtain ⟨key, value⟩ := entry
    obtain ⟨key', value'⟩ := entry'
    obtain ⟨rfl, hvalue⟩ := hentry
    have hrest := ih (before ++ [(key, value')])
    rw [append_assoc, append_assoc] at hrest
    exact (Same.entry before key entries hvalue).trans hrest

variable {limits : DecodeLimits}

/-- The same values are within the same limits. -/
theorem Same.fits {value value' : CborValue} (h : Same value value') {levels : ℕ}
    (hfits : Fits limits levels value) : Fits limits levels value' := by
  induction h generalizing levels with
  | refl value => exact hfits
  | trans _ _ ih ih' => exact ih' (ih hfits)
  | item before after _ ih =>
    cases levels with
    | zero => cases hfits.1
    | succ levels =>
      obtain ⟨hsize, hitems⟩ := fits_array_iff.1 hfits
      rw [forall_mem_append, forall_mem_cons] at hitems
      refine fits_array_iff.2 ⟨?_, ?_⟩
      · rw [length_append] at hsize ⊢
        exact hsize
      · rw [forall_mem_append, forall_mem_cons]
        exact ⟨hitems.1, ih hitems.2.1, hitems.2.2⟩
  | entry before key after _ ih =>
    cases levels with
    | zero => cases hfits.1
    | succ levels =>
      obtain ⟨hsize, hentries⟩ := fits_map_iff.1 hfits
      rw [forall_mem_append, forall_mem_cons] at hentries
      refine fits_map_iff.2 ⟨?_, ?_⟩
      · rw [length_append] at hsize ⊢
        exact hsize
      · rw [forall_mem_append, forall_mem_cons]
        exact ⟨hentries.1, ⟨hentries.2.1.1, ih hentries.2.1.2⟩, hentries.2.2⟩
  | perm hperm =>
    cases levels with
    | zero => cases hfits.1
    | succ levels =>
      obtain ⟨hsize, hentries⟩ := fits_map_iff.1 hfits
      exact fits_map_iff.2 ⟨hperm.length_eq ▸ hsize,
        fun entry hentry => hentries entry (hperm.mem_iff.2 hentry)⟩

/-! ## Reading what was written -/

namespace Decoder

variable {limits : DecodeLimits} {levels : ℕ}

theorem reads_value_of_head {major argument : ℕ} {head word : Bytes} {read : CborValue}
    (hmajor : major < 7) (hhead : encodeHead major argument = .ok head)
    (h : Reads (headed limits levels (value limits levels) major argument) word read) :
    Reads (value limits (levels + 1)) (head ++ word) read := by
  obtain ⟨additional, tail, rfl, hadditional, hargument⟩ := reads_argument hhead
  refine (reads_byte (initialByte major additional)).bind (?_ : Reads _ (tail ++ word) read)
  rw [major_initialByte (by omega) hadditional, additional_initialByte (by omega) hadditional,
    if_neg (by omega)]
  exact hargument.bind h

/-- The payload of an integer beyond 64 bits is read. -/
theorem reads_bignum {tag magnitude : ℕ} {head : Bytes}
    (htag : tag = positiveBignumTag ∨ tag = negativeBignumTag) (hroom : 1 < levels)
    (hbig : maxUint64 < magnitude)
    (hsize : Within limits.maxBlobBytes (minimalBytes magnitude).length)
    (hhead : encodeHead 2 (minimalBytes magnitude).length = .ok head) :
    Reads (bignum limits tag levels) (head ++ minimalBytes magnitude)
      (signed (tag = negativeBignumTag) magnitude) := by
  obtain ⟨additional, tail, rfl, hadditional, hargument⟩ := reads_argument hhead
  refine reads_invariant_bind (decide_eq_true htag)
    (reads_invariant_bind (decide_eq_true hroom) ?_)
  refine (reads_byte (initialByte 2 additional)).bind
    (?_ : Reads _ (tail ++ minimalBytes magnitude) _)
  rw [major_initialByte (by decide) hadditional, additional_initialByte (by decide) hadditional]
  refine reads_invariant_bind rfl (hargument.bind ?_)
  refine reads_invariant_bind (decide_eq_true hsize.2)
    (reads_invariant_bind (decide_eq_true hsize.1) ?_)
  refine (reads_bytes (minimalBytes magnitude)).bind_nil ?_
  have hlong : 8 < (minimalBytes magnitude).length :=
    lt_length_minimalBytes (show 256 ^ 8 ≤ magnitude by rw [maxUint64] at hbig; omega)
  have hfirst : (minimalBytes magnitude).head? ≠ some 0 := by
    cases hbytes : minimalBytes magnitude with
    | nil => exact Option.some_ne_none _ ∘ Eq.symm
    | cons byte bytes =>
      exact fun h => head_minimalBytes_ne_zero hbytes (Option.some.inj h)
  refine reads_invariant_bind (decide_eq_true ⟨hlong, hfirst⟩) ?_
  rw [ofBytes_minimalBytes]
  exact reads_invariant_bind (decide_eq_true hbig) (reads_pure _)

variable {word : Bytes}

theorem reads_integer {number : ℤ} (h : encodeBigint number = .ok word)
    (hfits : Fits limits (levels + 1) (.integer number)) :
    Reads (value limits (levels + 1)) word (.integer number) := by
  obtain ⟨negative, n, rfl⟩ := exists_signed number
  rcases encodeBigint_eq_ok_iff.1 h with ⟨_, hhead⟩ | ⟨hbig, tag, htag, head, hhead, rfl⟩
  · rw [← word.append_nil]
    cases negative with
    | true => exact reads_value_of_head (by decide) hhead (reads_pure _)
    | false => exact reads_value_of_head (by decide) hhead (reads_pure _)
  · obtain ⟨hrespects, hroom⟩ := hfits
    rw [Respects, magnitude_signed] at hrespects
    rw [HasRoom, magnitude_signed] at hroom
    refine reads_value_of_head (by decide) htag (Reads.bind_nil ?_ (reads_pure _))
    cases negative with
    | true => exact reads_bignum (.inr rfl) (hroom hbig) hbig (hrespects hbig) hhead
    | false => exact reads_bignum (.inl rfl) (hroom hbig) hbig (hrespects hbig) hhead

theorem reads_text {text : String} (h : encodeText text = .ok word)
    (hfits : Fits limits (levels + 1) (.text text)) :
    Reads (value limits (levels + 1)) word (.text text) := by
  obtain ⟨bytes, hbytes, head, hhead, rfl⟩ := encodeText_eq_ok_iff.1 h
  have hsize : Within limits.maxTextBytes bytes.length := by
    rw [(utf8_eq_ok_iff.1 hbytes).1]
    exact hfits.1
  refine reads_value_of_head (by decide) hhead (reads_invariant_bind (decide_eq_true hsize.2)
    (reads_invariant_bind (decide_eq_true hsize.1) ?_))
  refine (reads_bytes bytes).bind_nil ?_
  rw [decodeUtf8_of_utf8 hbytes]
  exact reads_pure _

theorem reads_byteString {bytes word : Bytes} (h : encodeBytes bytes = .ok word)
    (hfits : Fits limits (levels + 1) (.bytes bytes)) :
    Reads (value limits (levels + 1)) word (.bytes bytes) := by
  obtain ⟨head, hhead, rfl⟩ := encodeBytes_eq_ok_iff.1 h
  obtain ⟨hlimit, hsafe⟩ := hfits.1
  exact reads_value_of_head (by decide) hhead (reads_invariant_bind (decide_eq_true hsafe)
    (reads_invariant_bind (decide_eq_true hlimit) ((reads_bytes bytes).bind_nil (reads_pure _))))

/-- A key is read back. -/
theorem reads_key {key : CborMapKey} (h : encodeKey key = .ok word)
    (hfits : Fits limits levels key.toValue) : Reads (value limits levels) word key.toValue := by
  cases levels with
  | zero => cases hfits.1
  | succ levels =>
    cases key with
    | integer number => exact reads_integer h hfits
    | text text => exact reads_text h hfits
    | bytes bytes => exact reads_byteString h hfits

variable {nested : Decoder CborValue} {R : CborValue → CborValue → Prop}

/-- The items of an array are read one after the other. -/
theorem reads_items {values : List CborValue} {words : List Bytes}
    (h : Forall₂ (fun value word => ∃ read, Reads nested word read ∧ R value read)
      values words) : ∃ reads, Reads (items nested values.length) words.flatten reads ∧
      Forall₂ R values reads := by
  induction h with
  | nil => exact ⟨[], reads_pure [], .nil⟩
  | @cons value word values words hvalue _ ih =>
    obtain ⟨read, hread, hsame⟩ := hvalue
    obtain ⟨reads, hreads, hsames⟩ := ih
    exact ⟨read :: reads, hread.bind (hreads.bind_nil (reads_pure _)), .cons hsame hsames⟩

theorem asKey_toValue (key : CborMapKey) : asKey key.toValue = pure key := by
  cases key with
  | integer value | text value | bytes value => rfl

/-- The entries of a map are read one after the other, and set in the map. -/
theorem reads_entries {values : List (CborMapKey × CborValue)} {words : List (Bytes × Bytes)}
    (h : Forall₂ (fun entry word => Reads nested word.1 entry.1.toValue ∧
      ∃ read, Reads nested word.2 read ∧ R entry.2 read) values words)
    {map : List (CborMapKey × CborValue)} {previous : Option Bytes}
    (hchain : (previous.toList ++ words.map Prod.fst).IsChain KeyLt) :
    ∃ reads, Reads (entries nested values.length map previous)
        (words.flatMap fun entry => entry.1 ++ entry.2)
        (reads.foldl (fun map entry => OrdMap.upsert entry.1 entry.2 map) map) ∧
      Forall₂ (fun entry read : CborMapKey × CborValue => entry.1 = read.1 ∧ R entry.2 read.2)
        values reads := by
  induction h generalizing map previous with
  | nil => exact ⟨[], reads_pure map, .nil⟩
  | @cons entry word values words hentry _ ih =>
    obtain ⟨key, value⟩ := entry
    obtain ⟨keyWord, valueWord⟩ := word
    obtain ⟨hkey, read, hread, hsame⟩ := hentry
    have hprevious : previous.all fun previous => KeyLe previous keyWord ∧ previous ≠ keyWord := by
      cases previous with
      | none => rfl
      | some previous => exact decide_eq_true (isChain_cons_cons.1 hchain).1
    have hchain' : (keyWord :: words.map Prod.fst).IsChain KeyLt := hchain.right_of_append
    obtain ⟨reads, hreads, hsames⟩ := @ih (OrdMap.upsert key read map) (some keyWord) hchain'
    refine ⟨(key, read) :: reads, fun rest => ?_, .cons ⟨rfl, hsame⟩ hsames⟩
    rw [flatMap_cons, append_assoc, append_assoc, length_cons, entries,
      bind_get_run, bind_run_of_ok (hkey _)]
    rw [asKey_toValue, bind_pure_run, bind_get_run, length_append, Nat.add_sub_cancel,
      take_left]
    rw [← append_assoc]
    exact reads_invariant_bind (f := fun _ => nested >>= fun value =>
      entries nested values.length (OrdMap.upsert key value map) (some keyWord)) hprevious
      (hread.bind hreads) rest

/-- What was written is read up to the order of the entries of maps, and exactly if they are in
    order. -/
abbrev ReadAs (levels : ℕ) (written read : CborValue) : Prop :=
  Same written read ∧ (InOrder levels written → read = written)

theorem ReadAs.refl (levels : ℕ) (written : CborValue) : ReadAs levels written written :=
  ⟨.refl _, fun _ => rfl⟩

/-- The entries in the order in which they were written. -/
theorem exists_sorted (levels : ℕ) {written : List (CborMapKey × CborValue)} {words : List (Bytes × Bytes)}
    (h : Forall₂ EncodesEntry written words) : ∃ sorted, written.Perm sorted ∧
      Forall₂ EncodesEntry sorted (sortEntries words) ∧
      (InOrder (levels + 1) (.map written) → sorted = written) := by
  by_cases hordered : InOrder (levels + 1) (.map written)
  · have hkeys : (written.filterMap fun entry => (encodeKey entry.1).toOption) =
        words.map Prod.fst := by
      clear hordered
      induction h with
      | nil => rfl
      | cons hentry _ ih =>
        rw [map_cons, ← ih]
        simp [hentry.1, Except.toOption]
    have hpairwise := hordered.1
    rw [hkeys, pairwise_map] at hpairwise
    rw [sortEntries, hpairwise.insertionSort_eq]
    exact ⟨written, .refl _, h, fun _ => rfl⟩
  · have hwords : words.Perm (sortEntries words) := (perm_insertionSort _ words).symm
    obtain ⟨sorted, hperm, hsorted⟩ := Pointwise.exists_perm_left h hwords
    exact ⟨sorted, hperm, hsorted, fun h => absurd h hordered⟩

/-- What the encoder wrote is read. -/
theorem reads_value {written : CborValue} (h : encodeCanonicalCbor written = .ok word)
    (hfits : Fits limits levels written) :
    ∃ read, Reads (value limits levels) word read ∧ ReadAs levels written read := by
  induction levels generalizing written word with
  | zero => cases hfits.1
  | succ levels ih =>
    cases written with
    | null =>
      cases h
      exact ⟨.null, fun _ => rfl, .refl _ _⟩
    | boolean b =>
      refine ⟨.boolean b, ?_, .refl _ _⟩
      cases b with
      | true =>
        cases h
        exact fun _ => rfl
      | false =>
        cases h
        exact fun _ => rfl
    | integer number => exact ⟨_, reads_integer h hfits, .refl _ _⟩
    | text text => exact ⟨_, reads_text h hfits, .refl _ _⟩
    | bytes bytes => exact ⟨_, reads_byteString h hfits, .refl _ _⟩
    | array written =>
      obtain ⟨head, hhead, words, hwords, rfl⟩ := encode_array_eq_ok_iff.1 h
      obtain ⟨hsize, hfits⟩ := fits_array_iff.1 hfits
      obtain ⟨reads, hreads, hsame⟩ := reads_items (Pointwise.imp_of_mem_left hwords
        fun item hitem word hword => ih hword (hfits item hitem))
      refine ⟨.array reads, reads_value_of_head (by decide) hhead ?_,
        same_array (hsame.imp fun _ _ h => h.1), fun hordered => ?_⟩
      · exact reads_invariant_bind (decide_eq_true hsize.2)
          (reads_invariant_bind (decide_eq_true hsize.1) (hreads.bind_nil (reads_pure _)))
      · have heq := Pointwise.imp_of_mem_left hsame fun item hitem _ h => h.2 (hordered item hitem)
        rw [forall₂_eq_eq_eq.le _ _ (heq.imp fun _ _ => Eq.symm)]
    | map written =>
      obtain ⟨words, hwords, hdistinct, head, hhead, rfl⟩ := encode_map_eq_ok_iff.1 h
      obtain ⟨hsize, hfits⟩ := fits_map_iff.1 hfits
      obtain ⟨sorted, hperm, hsorted, heq⟩ := exists_sorted levels hwords
      have hpairwise := (distinctKeys_eq_true_iff (pairwise_sortEntries words)).1 hdistinct
      have hlength : sorted.length = written.length := hperm.length_eq.symm
      obtain ⟨reads, hreads, hsame⟩ := @reads_entries (value limits levels) (ReadAs levels) sorted _
        (Pointwise.imp_of_mem_left hsorted fun entry hentry word hword => by
          obtain ⟨hkey, hvalue⟩ := hfits entry (hperm.mem_iff.2 hentry)
          exact ⟨reads_key hword.1 hkey, ih hword.2 hvalue⟩)
        [] none (isChain_iff_pairwise.2 hpairwise)
      have hkeys : sorted.map Prod.fst = reads.map Prod.fst := by
        rw [← forall₂_eq_eq_eq, forall₂_map_left_iff, forall₂_map_right_iff]
        exact hsame.imp fun _ _ h => h.1
      have hnodup : (([] ++ reads).map Prod.fst).Nodup := hkeys ▸ nodup_keys hsorted hpairwise
      rw [OrdMap.foldl_upsert hnodup] at hreads
      refine ⟨.map reads, reads_value_of_head (by decide) hhead ?_, (Same.perm hperm).trans
        (same_map (hsame.imp fun _ _ h => ⟨h.1, h.2.1⟩)), fun hordered => ?_⟩
      · rw [← hsorted.length_eq]
        exact reads_invariant_bind (decide_eq_true (hlength ▸ hsize.2)) (reads_invariant_bind
          (decide_eq_true (hlength ▸ hsize.1)) (hreads.bind_nil (reads_pure _)))
      · obtain rfl := heq hordered
        have hentries := Pointwise.imp_of_mem_left hsame fun entry hentry read h =>
          Prod.ext h.1 (h.2.2 (hordered.2 entry hentry)).symm
        rw [forall₂_eq_eq_eq.le _ _ hentries]

end Decoder

/-! ## The round trip -/

theorem assertCanonicalCbor_eq_ok_iff {input : Bytes} {value : CborValue} :
    assertCanonicalCbor input limits = .ok value ↔
      decodeCanonicalCbor input limits = .ok value ∧ encodeCanonicalCbor value = .ok input := by
  rw [assertCanonicalCbor, bind_eq_ok_iff]
  constructor
  · rintro ⟨value', hdecode, h⟩
    obtain ⟨word, hencode, h⟩ := bind_eq_ok_iff.1 h
    obtain ⟨hword, h⟩ := canonicalInvariant_bind_eq_ok_iff.1 h
    cases h
    exact ⟨hdecode, of_decide_eq_true hword ▸ hencode⟩
  · rintro ⟨hdecode, hencode⟩
    refine ⟨value, hdecode, bind_eq_ok_iff.2 ⟨input, hencode, ?_⟩⟩
    exact canonicalInvariant_bind_eq_ok_iff.2 ⟨decide_eq_true rfl, rfl⟩

/-- What the encoder wrote is accepted, by a decoder whose limits it respects. -/
theorem exists_assertCanonicalCbor {value : CborValue} {word : Bytes}
    (h : encodeCanonicalCbor value = .ok word) (hbytes : word.length ≤ limits.maxBytes)
    (hfits : Fits limits (limits.maxDepth + 1) value) :
    ∃ read, assertCanonicalCbor word limits = .ok read ∧
      Decoder.ReadAs (limits.maxDepth + 1) value read := by
  obtain ⟨read, hread, hsame⟩ := Decoder.reads_value h hfits
  have hrun := hread []
  rw [append_nil] at hrun
  have hdecode := decodeCanonicalCbor_eq_ok_iff.2 ⟨hbytes, hrun⟩
  exact ⟨read, assertCanonicalCbor_eq_ok_iff.2 ⟨hdecode,
    (encode_of_decodeCanonicalCbor hdecode (plain_of_encodeCanonicalCbor h).2).1⟩, hsame⟩

/-- Values with one encoding are the same. -/
theorem same_of_encode {value value' : CborValue} {word : Bytes} {limits limits' : DecodeLimits}
    {levels levels' : ℕ} (h : encodeCanonicalCbor value = .ok word)
    (h' : encodeCanonicalCbor value' = .ok word) (hrespects : Respects limits levels value)
    (hrespects' : Respects limits' levels' value') : Same value value' := by
  -- A decoder for both of them reads one value.
  let wide : DecodeLimits :=
    { maxBytes := 0
      maxDepth := 0
      maxArrayItems := max limits.maxArrayItems limits'.maxArrayItems
      maxMapItems := max limits.maxMapItems limits'.maxMapItems
      maxTextBytes := max limits.maxTextBytes limits'.maxTextBytes
      maxBlobBytes := max limits.maxBlobBytes limits'.maxBlobBytes }
  have hwide : limits.AtMost wide :=
    ⟨le_max_left _ _, le_max_left _ _, le_max_left _ _, le_max_left _ _⟩
  have hwide' : limits'.AtMost wide :=
    ⟨le_max_right _ _, le_max_right _ _, le_max_right _ _, le_max_right _ _⟩
  obtain ⟨read, hread, hsame⟩ := Decoder.reads_value h
    (hrespects.fits hwide (show levels + 2 ≤ max levels levels' + 2 by omega))
  obtain ⟨read', hread', hsame'⟩ := Decoder.reads_value h'
    (hrespects'.fits hwide' (show levels' + 2 ≤ max levels levels' + 2 by omega))
  have heq := (hread []).symm.trans (hread' [])
  obtain rfl := (EStateM.Result.ok.inj heq).1
  exact hsame.1.trans hsame'.1.symm

/-- An encoding is read back as the same value if and only if there is room for the payloads of
    the integers beyond 64 bits, and it is the encoding of no other value. -/
theorem encoding_read_back_iff {value : CborValue} {word : Bytes} {limits : DecodeLimits}
    (h : encodeCanonicalCbor value = .ok word) (hbytes : word.length ≤ limits.maxBytes)
    (hrespects : Respects limits (limits.maxDepth + 1) value) :
    ((∃ read, assertCanonicalCbor word limits = .ok read ∧ Same value read) ↔
      HasRoom (limits.maxDepth + 1) value) ∧
    ∀ other limits', Respects limits' (limits'.maxDepth + 1) other →
      encodeCanonicalCbor other = .ok word → Same value other := by
  refine ⟨⟨?_, fun hroom => ?_⟩, fun other limits' hother h' => ?_⟩
  · rintro ⟨read, hassert, hsame⟩
    obtain ⟨hdecode, _⟩ := assertCanonicalCbor_eq_ok_iff.1 hassert
    have hunmarked := (plain_of_encodeCanonicalCbor h).2
    exact (hsame.symm.fits (encode_of_decodeCanonicalCbor hdecode hunmarked).2).2
  · obtain ⟨read, hread, hsame, -⟩ := exists_assertCanonicalCbor h hbytes ⟨hrespects, hroom⟩
    exact ⟨read, hread, hsame⟩
  · exact same_of_encode h h' hrespects hother

theorem encoding_read_back_bignum :
    (∃ read, assertCanonicalCbor [0xc2, 0x49, 1, 0, 0, 0, 0, 0, 0, 0, 0] defaultDecodeLimits =
      .ok read ∧ Same (.integer (2 ^ 64)) read) ↔ HasRoom 65 (.integer (2 ^ 64)) :=
  (@encoding_read_back_iff (.integer (2 ^ 64)) [0xc2, 0x49, 1, 0, 0, 0, 0, 0, 0, 0, 0]
    defaultDecodeLimits (by decide +kernel) (by decide) fun _ => by decide +kernel).1

/-- Limits of one level below the top. -/
def shallowLimits : DecodeLimits := { defaultDecodeLimits with maxDepth := 1 }

/-- A byte string one level below the top is accepted in an array, but not as the payload of an
    integer beyond 64 bits. -/
theorem encoding_not_read_back :
    encodeCanonicalCbor (.integer (2 ^ 64)) = .ok [0xc2, 0x49, 1, 0, 0, 0, 0, 0, 0, 0, 0] ∧
      Respects shallowLimits (shallowLimits.maxDepth + 1) (.integer (2 ^ 64)) ∧
      assertCanonicalCbor [0xc2, 0x49, 1, 0, 0, 0, 0, 0, 0, 0, 0] shallowLimits =
        .error ⟨.cborLimitExceeded, "CBOR nesting exceeds limit"⟩ ∧
      assertCanonicalCbor [0x81, 0x49, 1, 0, 0, 0, 0, 0, 0, 0, 0] shallowLimits =
        .ok (.array [.bytes [1, 0, 0, 0, 0, 0, 0, 0, 0]]) :=
  ⟨by decide +kernel, fun _ => by decide +kernel, rfl, rfl⟩

end Chronolog.Canonical

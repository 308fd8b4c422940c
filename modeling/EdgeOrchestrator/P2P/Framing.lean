import EdgeOrchestrator.P2P.Protocol

/-!
# The grammar of the frames

A frame is a payload behind its length. The reader takes a frame off a stream whenever the stream
begins with one that keeps to the cap, and reports an error on every other stream.
-/

namespace EdgeOrchestrator.P2P

theorem readExact_eq_ok_iff {count : ℕ} {stream first rest : Bytes} :
    readExact count stream = .ok (first, rest) ↔
      first.length = count ∧ stream = first ++ rest := by
  constructor
  · intro hread
    rw [readExact] at hread
    split_ifs at hread with henough
    rw [Except.ok.injEq, Prod.mk.injEq] at hread
    rw [← hread.1, ← hread.2, List.length_take, List.take_append_drop]
    exact ⟨min_eq_left henough, rfl⟩
  · rintro ⟨hlength, hstream⟩
    rw [hstream]
    exact readExact_append hlength rest

theorem readExact_eq_error {count : ℕ} {stream : Bytes} (hshort : stream.length < count) :
    readExact count stream = .error .unexpectedEof := by
  rw [readExact, if_neg (by omega)]

/-- Four bytes are the encoding of the number they encode. -/
theorem toBeBytes_fromBeBytes {bytes : Bytes} (hlength : bytes.length = 4) :
    toBeBytes (fromBeBytes bytes) = bytes := by
  obtain ⟨first, second, third, fourth, hbytes⟩ := List.length_eq_four.mp hlength
  have hfirst := first.toNat_lt
  have hsecond := second.toNat_lt
  have hthird := third.toNat_lt
  have hfourth := fourth.toNat_lt
  rw [hbytes]
  simp only [fromBeBytes, toBeBytes, List.map_cons, List.map_nil, List.foldl_cons, List.foldl_nil,
    List.cons.injEq, ← UInt8.toNat_inj, UInt8.toNat_ofNat', and_true]
  refine ⟨?_, ?_, ?_, ?_⟩ <;> omega

/-- The length that a stream announces in its first four bytes. -/
def announcedLength (stream : Bytes) : ℕ := fromBeBytes (stream.take 4)

theorem announcedLength_append {lenBuf : Bytes} (hlength : lenBuf.length = 4) (rest : Bytes) :
    announcedLength (lenBuf ++ rest) = fromBeBytes lenBuf := by
  rw [announcedLength, List.take_left' hlength]

/-- The reader of a stream that has a length: its cap, and then as many bytes as the length. -/
theorem readLengthPrefixed_of_four_le {stream : Bytes} (hfour : 4 ≤ stream.length)
    (maxSize : ℕ) :
    readLengthPrefixed stream maxSize =
      if announcedLength stream > maxSize then
        .error (.invalidData ("payload size " ++ toString (announcedLength stream) ++
          " exceeds max " ++ toString maxSize))
      else readExact (announcedLength stream) (stream.drop 4) := by
  rw [readLengthPrefixed, readExact, if_pos hfour]
  rfl

theorem readLengthPrefixed_of_no_length {stream : Bytes} (hshort : stream.length < 4)
    (maxSize : ℕ) : readLengthPrefixed stream maxSize = .error .unexpectedEof := by
  rw [readLengthPrefixed, readExact_eq_error hshort]

/-- The cap is checked before the payload is looked at. -/
theorem readLengthPrefixed_of_too_long {stream : Bytes} {maxSize : ℕ}
    (hfour : 4 ≤ stream.length) (hlong : maxSize < announcedLength stream) :
    readLengthPrefixed stream maxSize =
      .error (.invalidData ("payload size " ++ toString (announcedLength stream) ++
        " exceeds max " ++ toString maxSize)) := by
  rw [readLengthPrefixed_of_four_le hfour, if_pos hlong]

theorem readLengthPrefixed_of_cut_off {stream : Bytes} {maxSize : ℕ}
    (hfour : 4 ≤ stream.length) (hfits : announcedLength stream ≤ maxSize)
    (hshort : stream.length < 4 + announcedLength stream) :
    readLengthPrefixed stream maxSize = .error .unexpectedEof := by
  rw [readLengthPrefixed_of_four_le hfour, if_neg (by omega)]
  apply readExact_eq_error
  rw [List.length_drop]
  omega

/-- What a reader returns is the payload of a frame at the head of the stream. -/
theorem frame_of_readLengthPrefixed {stream data rest : Bytes} {maxSize : ℕ}
    (hread : readLengthPrefixed stream maxSize = .ok (data, rest)) :
    data.length ≤ maxSize ∧ stream = toBeBytes data.length ++ data ++ rest := by
  by_cases hfour : 4 ≤ stream.length
  · rw [readLengthPrefixed_of_four_le hfour] at hread
    split_ifs at hread with hlong
    obtain ⟨hlength, hdrop⟩ := readExact_eq_ok_iff.mp hread
    have hlenBuf : (stream.take 4).length = 4 := List.length_take_of_le hfour
    constructor
    · omega
    · calc
        stream = stream.take 4 ++ stream.drop 4 := (List.take_append_drop 4 stream).symm
        _ = toBeBytes (announcedLength stream) ++ (data ++ rest) := by
          rw [hdrop, announcedLength, toBeBytes_fromBeBytes hlenBuf]
        _ = toBeBytes data.length ++ data ++ rest := by rw [hlength, List.append_assoc]
  · rw [readLengthPrefixed_of_no_length (by omega)] at hread
    cases hread

/-- A frame that keeps to the cap is taken off the stream. -/
theorem readLengthPrefixed_frame {data : Bytes} {maxSize : ℕ} (hmax : maxSize < 2 ^ 32)
    (hfits : data.length ≤ maxSize) (rest : Bytes) :
    readLengthPrefixed (toBeBytes data.length ++ data ++ rest) maxSize = .ok (data, rest) := by
  have hannounced : announcedLength (toBeBytes data.length ++ (data ++ rest)) = data.length := by
    rw [announcedLength_append (length_toBeBytes _), fromBeBytes_toBeBytes (by omega)]
  rw [List.append_assoc, readLengthPrefixed_of_four_le (by simp [length_toBeBytes]), hannounced,
    if_neg (by omega), List.drop_left' (length_toBeBytes _)]
  exact readExact_append rfl rest

theorem readLengthPrefixed_eq_ok_iff {stream data rest : Bytes} {maxSize : ℕ}
    (hmax : maxSize < 2 ^ 32) :
    readLengthPrefixed stream maxSize = .ok (data, rest) ↔
      data.length ≤ maxSize ∧ stream = toBeBytes data.length ++ data ++ rest := by
  constructor
  · exact frame_of_readLengthPrefixed
  · rintro ⟨hfits, hstream⟩
    rw [hstream]
    exact readLengthPrefixed_frame hmax hfits rest

/-- The reader returns an error exactly on a stream without a length, with too long a length, or
that ends before its length says. -/
theorem readLengthPrefixed_eq_error_iff {stream : Bytes} {maxSize : ℕ} :
    (∃ error, readLengthPrefixed stream maxSize = .error error) ↔
      stream.length < 4 ∨ maxSize < announcedLength stream ∨
        stream.length < 4 + announcedLength stream := by
  by_cases hfour : 4 ≤ stream.length
  · by_cases hlong : maxSize < announcedLength stream
    · rw [readLengthPrefixed_of_too_long hfour hlong]
      simp [hlong]
    · by_cases hshort : stream.length < 4 + announcedLength stream
      · rw [readLengthPrefixed_of_cut_off hfour (by omega) hshort]
        simp [hshort]
      · have henough : announcedLength stream ≤ (stream.drop 4).length := by
          rw [List.length_drop]
          omega
        rw [readLengthPrefixed_of_four_le hfour, if_neg hlong, readExact, if_pos henough]
        simp only [reduceCtorEq, exists_false, false_iff]
        omega
  · rw [readLengthPrefixed_of_no_length (by omega)]
    exact iff_of_true ⟨_, rfl⟩ (Or.inl (by omega))

/-- A short payload keeps its length on the wire. -/
theorem writeLengthPrefixed_eq_frame {data : Bytes} (hlength : data.length < 2 ^ 32) :
    writeLengthPrefixed data = toBeBytes data.length ++ data := by
  rw [writeLengthPrefixed, Nat.mod_eq_of_lt hlength]

/-- The reader accepts the frames that keep to the cap, whatever follows them, and nothing else;
what the writer writes of a payload that keeps to the cap is such a frame. -/
theorem readLengthPrefixed_grammar {maxSize : ℕ} (hmax : maxSize < 2 ^ 32) (stream : Bytes) :
    (∀ data rest, readLengthPrefixed stream maxSize = .ok (data, rest) ↔
      data.length ≤ maxSize ∧ stream = toBeBytes data.length ++ data ++ rest) ∧
    (stream.length < 4 ∨ stream.length < 4 + announcedLength stream ∨
      maxSize < announcedLength stream →
        ∃ error, readLengthPrefixed stream maxSize = .error error) ∧
    ∀ data rest, data.length ≤ maxSize →
      readLengthPrefixed (writeLengthPrefixed data ++ rest) maxSize = .ok (data, rest) := by
  refine ⟨fun _ _ ↦ readLengthPrefixed_eq_ok_iff hmax, ?_, ?_⟩
  · intro hbad
    apply readLengthPrefixed_eq_error_iff.mpr
    tauto
  · intro data rest hfits
    rw [writeLengthPrefixed_eq_frame (by omega)]
    exact readLengthPrefixed_frame hmax hfits rest

theorem readLengthPrefixed_grammar_one_byte :
    ([0, 0, 0, 1, 7, 9] : Bytes) = toBeBytes 1 ++ [7] ++ [9] ∧
      readLengthPrefixed [0, 0, 0, 1, 7, 9] 1 = .ok ([7], [9]) ∧
      (∃ error, readLengthPrefixed [0, 0, 0, 2, 7, 9] 1 = .error error) ∧
      readLengthPrefixed (writeLengthPrefixed [7] ++ [9]) 1 = .ok ([7], [9]) := by
  have hmax : 1 < 2 ^ 32 := by decide
  have hframe := readLengthPrefixed_grammar hmax [0, 0, 0, 1, 7, 9]
  have hlong := readLengthPrefixed_grammar hmax [0, 0, 0, 2, 7, 9]
  exact ⟨by decide, (hframe.1 [7] [9]).mpr (by decide), hlong.2.1 (by decide),
    hframe.2.2 [7] [9] (by decide)⟩

end EdgeOrchestrator.P2P

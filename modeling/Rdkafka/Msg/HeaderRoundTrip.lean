import Rdkafka.Msg.Header

/-!
# Header sizes and the header round trip

`rd_kafka_header_add` keeps `rkhdrs_ser_size` as the sum of the serialized sizes of the
headers, `rd_kafka_msgset_writer_write_msg_headers` writes that many bytes, and
`rd_kafka_msg_headers_parse` reads the headers back from them.  The size is recorded with
length varints encoded into `RD_UVARINT_ENC_SIZEOF(int32_t)`-byte buffers, which hold the
zig-zag code of a length below `2^34` only; for longer names or values the recorded size
is short of what is written (`headerAdd_serSize_long_name`).

For headers built by any sequence of adds and removes with names and values shorter than
`2^34` bytes (`HeaderOp.Ok`), `Headers.Consistent` holds in every reachable state
(`headerOps_consistent`), and from it the writer's byte count equals the recorded size and
the parse gives back the same headers (`msgHeaders_roundTrip`).
-/

set_option autoImplicit false

namespace Rdkafka

open Leb128

/-! ## Lengths as zig-zag varints -/

theorem toNat_zigzagEncode_ofNat {n : ℕ} (h : n < 2 ^ 63) :
    (BitVec.zigzagEncode (BitVec.ofNat 64 n)).toNat = 2 * n := by
  have hn : (BitVec.ofNat 64 n).toNat = n := by
    rw [BitVec.toNat_ofNat]
    omega
  have hmsb : (BitVec.ofNat 64 n).msb = false := by
    rw [BitVec.msb_eq_false_iff_two_mul_lt, hn]
    omega
  rw [BitVec.zigzagEncode_eq, hmsb, if_neg (by simp), BitVec.toNat_shiftLeft, hn,
    Nat.shiftLeft_eq]
  omega

theorem toNat_zigzagEncode_neg_one : (BitVec.zigzagEncode (-1 : BitVec 64)).toNat = 1 := by
  decide

theorem toInt_ofNat_of_lt {n : ℕ} (h : n < 2 ^ 63) : (BitVec.ofNat 64 n).toInt = n := by
  rw [BitVec.toInt_eq_toNat_cond, BitVec.toNat_ofNat]
  have : n % 2 ^ 64 = n := by omega
  rw [this, if_pos (by omega)]

theorem length_encode_two_mul_le {n : ℕ} (h : n < 2 ^ 34) : (encode (2 * n)).length ≤ 5 :=
  length_encode_le 4 (by
    calc 2 * n < 2 * 2 ^ 34 := by omega
      _ = 128 ^ (4 + 1) := by norm_num)

/-- A length below `2^34` fits `rd_kafka_header_add`'s varint buffers. -/
theorem uvarintEncI64_int32_sizeof {n : ℕ} (h : n < 2 ^ 34) :
    (uvarintEncI64 (uvarintEncSizeof 4) (BitVec.ofNat 64 n)).1 = (encode (2 * n)).length := by
  have h5 : uvarintEncSizeof 4 = 5 := rfl
  rw [uvarintEncI64, zigzag_eq_zigzagEncode, uvarintEncU64_eq,
    toNat_zigzagEncode_ofNat (by omega), h5, if_pos (length_encode_two_mul_le h)]

/-- A length of `2^34` or more does not fit them: the varint counts `0` bytes. -/
theorem uvarintEncI64_int32_sizeof_long {n : ℕ} (hlo : 2 ^ 34 ≤ n) (hhi : n < 2 ^ 63) :
    (uvarintEncI64 (uvarintEncSizeof 4) (BitVec.ofNat 64 n)).1 = 0 := by
  have h5 : uvarintEncSizeof 4 = 5 := rfl
  have hlong : 5 < (encode (2 * n)).length :=
    lt_length_encode 5 (by
      calc 128 ^ 5 = 2 * 2 ^ 34 := by norm_num
        _ ≤ 2 * n := by omega)
  rw [uvarintEncI64, zigzag_eq_zigzagEncode, uvarintEncU64_eq, toNat_zigzagEncode_ofNat hhi, h5,
    if_neg (by omega)]

theorem headerSerSize_eq {n v : ℕ} (hn : n < 2 ^ 34) (hv : v < 2 ^ 34) :
    headerSerSize n v = n + v + (encode (2 * n)).length + (encode (2 * v)).length := by
  rw [headerSerSize, uvarintEncI64_int32_sizeof hn, uvarintEncI64_int32_sizeof hv]

/-! ## The headers a sequence of calls builds -/

/-- A header's recorded size is the one `rd_kafka_header_add` computes for its name and
value, and both are shorter than `2^34` bytes. -/
def Header.Sized (hdr : Header) : Prop :=
  hdr.serSize = headerSerSize hdr.name.length hdr.valueSize ∧ hdr.name.length < 2 ^ 34 ∧
    hdr.valueSize < 2 ^ 34

/-- The invariant of a headers object: every header is sized and the total is the sum of
the headers' sizes. -/
structure Headers.Consistent (hdrs : Headers) : Prop where
  sized : ∀ hdr ∈ hdrs.list, hdr.Sized
  total : hdrs.serSize = (hdrs.list.map Header.serSize).sum

/-- A call on a headers object: `rd_kafka_header_add` with a name and a value (`NULL` or
not) given with their lengths, or `rd_kafka_header_remove` by name. -/
inductive HeaderOp where
  | add (name : List UInt8) (value : Option (List UInt8))
  | remove (name : List UInt8)
  deriving DecidableEq, Repr

/-- The headers object after a call. -/
def HeaderOp.apply : HeaderOp → Headers → Headers
  | .add name value, hdrs =>
    headerAdd hdrs name name.length value ((value.map fun v => (v.length : ℤ)).getD 0)
  | .remove name, hdrs => (headerRemove hdrs name).2

/-- The calls the round trip covers: names and values shorter than `2^34` bytes. -/
def HeaderOp.Ok : HeaderOp → Prop
  | .add name value => name.length < 2 ^ 34 ∧ ∀ v, value = some v → v.length < 2 ^ 34
  | .remove _ => True

/-- The headers object a sequence of calls builds from `rd_kafka_headers_new`. -/
def headerOpsRun (ops : List HeaderOp) : Headers := ops.foldl (fun hdrs op => op.apply hdrs) headersNew

theorem headersNew_consistent : headersNew.Consistent := ⟨by simp [headersNew], rfl⟩

/-- `rd_kafka_header_add` given a name and a value with their lengths, each with more
memory after it, stores the name and the value and nothing after them.  The size of a
`NULL` value is not read. -/
theorem headerAdd_prefix (hdrs : Headers) (name t : List UInt8) (value : Option (List UInt8))
    (t' : List UInt8) (valueSize : ℤ) (hsize : ∀ v, value = some v → valueSize = v.length) :
    headerAdd hdrs (name ++ t) name.length (value.map (· ++ t')) valueSize =
      let hdr : Header :=
        ⟨name, value, headerSerSize name.length ((value.map List.length).getD 0)⟩
      ⟨hdrs.list ++ [hdr], hdrs.serSize + hdr.serSize⟩ := by
  have hname : (name.length : ℤ) ≠ -1 := by omega
  cases value with
  | none =>
    by_cases hv : valueSize = -1
    · simp [headerAdd, hname, hv]
    · simp [headerAdd, hname, hv]
  | some v =>
    obtain rfl := hsize v rfl
    have hv : (v.length : ℤ) ≠ -1 := by omega
    simp [headerAdd, hname, hv]

/-- Adding a name and a value with their lengths appends exactly that header. -/
theorem headerAdd_eq (hdrs : Headers) (name : List UInt8) (value : Option (List UInt8)) :
    headerAdd hdrs name name.length value ((value.map fun v => (v.length : ℤ)).getD 0) =
      let hdr : Header := ⟨name, value, headerSerSize name.length ((value.map List.length).getD 0)⟩
      ⟨hdrs.list ++ [hdr], hdrs.serSize + hdr.serSize⟩ := by
  have h := headerAdd_prefix hdrs name [] value [] ((value.map fun v => (v.length : ℤ)).getD 0)
    (by rintro v rfl; rfl)
  simpa using h

/-- The remove loop keeps the headers with other names, in order, and adds up the sizes of
the others. -/
theorem headerRemoveLoop_eq (name : List UInt8) (l : List Header) :
    headerRemoveLoop name l =
      (l.filter fun hdr => !strEq (hdr.name ++ [0]) name,
        ((l.filter fun hdr => strEq (hdr.name ++ [0]) name).map Header.serSize).sum) := by
  induction l with
  | nil => rfl
  | cons hdr l ih =>
    rw [headerRemoveLoop, List.foldr_cons, ← headerRemoveLoop, ih]
    by_cases h : strEq (hdr.name ++ [0]) name
    · simp [h, Nat.add_comm]
    · simp [h]

theorem sum_serSize_filter (p : Header → Bool) (l : List Header) :
    (l.map Header.serSize).sum =
      ((l.filter fun hdr => !p hdr).map Header.serSize).sum +
        ((l.filter p).map Header.serSize).sum := by
  induction l with
  | nil => rfl
  | cons hdr l ih =>
    by_cases h : p hdr
    · simp [h, ih]
      omega
    · simp [h, ih]
      omega

/-- **Step, add.**  Adding a name and a value shorter than `2^34` bytes keeps the headers
consistent. -/
theorem Headers.Consistent.add {hdrs : Headers} (h : hdrs.Consistent) {name : List UInt8}
    {value : Option (List UInt8)} (hok : (HeaderOp.add name value).Ok) :
    ((HeaderOp.add name value).apply hdrs).Consistent := by
  obtain ⟨hname, hvalue⟩ := hok
  rw [HeaderOp.apply, headerAdd_eq]
  constructor
  · intro hdr hmem
    rcases List.mem_append.1 hmem with hmem | hmem
    · exact h.sized hdr hmem
    · rw [List.mem_singleton.1 hmem]
      refine ⟨rfl, hname, ?_⟩
      cases value with
      | none => simp [Header.valueSize]
      | some v => simpa [Header.valueSize] using hvalue v rfl
  · simp [h.total]

/-- **Step, remove.**  Removing headers by name keeps the headers consistent, whether or
not any was found. -/
theorem Headers.Consistent.remove {hdrs : Headers} (h : hdrs.Consistent) (name : List UInt8) :
    ((HeaderOp.remove name).apply hdrs).Consistent := by
  have hsum := sum_serSize_filter (fun hdr => strEq (hdr.name ++ [0]) name) hdrs.list
  rw [HeaderOp.apply, headerRemove, headerRemoveLoop_eq]
  dsimp only
  split
  · rename_i hzero
    refine ⟨fun hdr hmem => h.sized hdr (List.mem_filter.1 hmem).1, ?_⟩
    dsimp only
    rw [h.total]
    omega
  · refine ⟨fun hdr hmem => h.sized hdr (List.mem_filter.1 hmem).1, ?_⟩
    dsimp only
    rw [h.total]
    omega

/-- **Run.**  Every headers object built by a sequence of covered calls is consistent. -/
theorem headerOps_consistent (ops : List HeaderOp) (hops : ∀ op ∈ ops, op.Ok) :
    (headerOpsRun ops).Consistent := by
  rw [headerOpsRun]
  suffices ∀ hdrs : Headers, hdrs.Consistent →
      (ops.foldl (fun hdrs op => op.apply hdrs) hdrs).Consistent from
    this headersNew headersNew_consistent
  induction ops with
  | nil => exact fun _ h => h
  | cons op ops ih =>
    intro hdrs h
    rw [List.foldl_cons]
    refine ih (fun op' hop' => hops op' (List.mem_cons_of_mem _ hop')) _ ?_
    cases op with
    | add name value => exact h.add (hops _ List.mem_cons_self)
    | remove name => exact h.remove name

/-! ## Writing -/

/-- The writer writes a sized header in its recorded size. -/
theorem length_writeMsgHeader {hdr : Header} (h : hdr.Sized) :
    (writeMsgHeader hdr).length = hdr.serSize := by
  obtain ⟨name, value, serSize⟩ := hdr
  simp only [Header.Sized, Header.valueSize] at h
  obtain ⟨rfl, hname, hvalue⟩ := h
  rw [headerSerSize_eq hname hvalue]
  cases value with
  | none =>
    rw [writeMsgHeader_none, bufWriteVarint_eq, bufWriteVarint_eq, toNat_zigzagEncode_neg_one,
      toNat_zigzagEncode_ofNat (by omega)]
    simp [encode_of_lt]
    omega
  | some v =>
    have hv : v.length < 2 ^ 34 := by simpa using hvalue
    simp [bufWriteVarint_eq, toNat_zigzagEncode_ofNat (show name.length < 2 ^ 63 by omega),
      toNat_zigzagEncode_ofNat (show v.length < 2 ^ 63 by omega)]
    omega

/-- The writer's byte count is the sum of the recorded sizes of a consistent object. -/
theorem msgsetWriterWriteMsgHeaders_length {hdrs : Headers} (h : hdrs.Consistent) :
    (msgsetWriterWriteMsgHeaders hdrs).2 = hdrs.serSize := by
  rw [msgsetWriterWriteMsgHeaders]
  dsimp only
  rw [h.total, List.length_flatten, List.map_map]
  congr 1
  apply List.map_congr_left
  intro hdr hmem
  exact length_writeMsgHeader (h.sized hdr hmem)

/-! ## Parsing -/

/-- **Step.**  Reading one header written by the writer adds exactly that header and moves
the reader past its bytes. -/
theorem headersParseLoop_cons {data : List UInt8} {p : ℕ} {hdr : Header} (h : hdr.Sized)
    {rest : List UInt8} (hbytes : data.drop p = writeMsgHeader hdr ++ rest) (n : ℕ)
    (acc : Headers) :
    headersParseLoop (shadowBuf data) (n + 1) (windowSlice p data.length) acc =
      headersParseLoop (shadowBuf data) n (windowSlice (p + (writeMsgHeader hdr).length) data.length)
        ⟨acc.list ++ [hdr], acc.serSize + hdr.serSize⟩ := by
  obtain ⟨name, value, serSize⟩ := hdr
  simp only [Header.Sized, Header.valueSize] at h
  obtain ⟨rfl, hname, hvalue⟩ := h
  set w1 := bufWriteVarint (BitVec.ofNat 64 name.length)
  set vl : BitVec 64 :=
    if value.isSome then BitVec.ofNat 64 ((value.map List.length).getD 0) else -1 with hvl
  set vb := (value.getD []).take ((value.map List.length).getD 0) with hvb
  have hw : writeMsgHeader ⟨name, value, headerSerSize name.length
      ((value.map List.length).getD 0)⟩ = w1 ++ (name ++ (bufWriteVarint vl ++ vb)) := by
    simp only [writeMsgHeader, Header.valueSize, List.append_assoc, w1, vl, vb]
  -- the offsets of the name, the value length and the value
  rw [hw, List.append_assoc] at hbytes
  have h2 : data.drop (p + w1.length) = name ++ (bufWriteVarint vl ++ (vb ++ rest)) := by
    rw [drop_add_length_of_drop_eq hbytes]
    simp only [List.append_assoc]
  have h3 := drop_add_length_of_drop_eq h2
  have h4 := drop_add_length_of_drop_eq h3
  have hp2 := add_length_le_of_drop_eq hbytes (bufWriteVarint_ne_nil _)
  have hp4 := add_length_le_of_drop_eq h3 (bufWriteVarint_ne_nil _)
  have hp5 := add_length_le_of_drop_eq_of_le h4 hp4
  have hend : p + (w1 ++ (name ++ (bufWriteVarint vl ++ vb))).length =
      p + w1.length + name.length + (bufWriteVarint vl).length + vb.length := by
    simp only [List.length_append]
    omega
  have hkey : (BitVec.ofNat 64 name.length).toNat = name.length := by
    rw [BitVec.toNat_ofNat]
    omega
  rw [hw, hend, headersParseLoop, bufReadVarint_window_write le_rfl _ hbytes hp2]
  dsimp only
  rw [hkey, bufReadPtr_window_bytes le_rfl h2 (by omega)]
  dsimp only
  rw [bufReadVarint_window_write le_rfl _ h3 hp4, toInt_ofNat_of_lt (by omega)]
  dsimp only
  cases value with
  | none =>
    -- a `NULL` value goes out as length `-1`, and no value bytes are read
    have hvb0 : vb = [] := by simp [hvb]
    rw [if_pos (by simp [hvl]), hvb0, List.length_nil, Nat.add_zero]
    congr 1
    exact headerAdd_prefix acc name _ none [] _ (by simp)
  | some v =>
    have hvl' : vl = BitVec.ofNat 64 v.length := by simp [hvl]
    have hv : v.length < 2 ^ 34 := by simpa using hvalue
    have hne : vl ≠ -1 := by
      rw [hvl']
      intro heq
      have := congrArg BitVec.toNat heq
      rw [BitVec.toNat_ofNat] at this
      simp at this
      omega
    have hvb' : vb = v := by simp [hvb]
    have hvlen : vl.toNat = v.length := by
      rw [hvl', BitVec.toNat_ofNat]
      omega
    rw [hvb'] at h4 hp5 ⊢
    rw [if_neg hne, hvlen, bufReadPtr_window_bytes le_rfl h4 hp5]
    dsimp only
    rw [hvl', toInt_ofNat_of_lt (by omega)]
    congr 1
    exact headerAdd_prefix acc name _ (some v) rest _ (by simp)

/-- **Run.**  Reading the headers the writer wrote, one after the other, adds each of them
in order. -/
theorem headersParseLoop_run {data : List UInt8} (L : List Header)
    (hL : ∀ hdr ∈ L, hdr.Sized) {p : ℕ} {rest : List UInt8}
    (hbytes : data.drop p = (L.map writeMsgHeader).flatten ++ rest) (acc : Headers) :
    headersParseLoop (shadowBuf data) L.length (windowSlice p data.length) acc =
      some (.ok ⟨acc.list ++ L, acc.serSize + (L.map Header.serSize).sum⟩) := by
  induction L generalizing p acc with
  | nil => simp [headersParseLoop]
  | cons hdr L ih =>
    have hhdr : data.drop p = writeMsgHeader hdr ++ ((L.map writeMsgHeader).flatten ++ rest) := by
      rw [hbytes, List.map_cons, List.flatten_cons, List.append_assoc]
    rw [List.length_cons, headersParseLoop_cons (hL hdr List.mem_cons_self) hhdr,
      ih (fun hdr' hmem => hL hdr' (List.mem_cons_of_mem _ hmem)) (drop_add_length_of_drop_eq hhdr)]
    simp [Nat.add_assoc]

/-- The parser reads back a consistent headers object of `1` to `100000` headers from its
`HeaderCount` and the writer's bytes. -/
theorem msgHeadersParse_write {hdrs : Headers} (h : hdrs.Consistent)
    (hpos : 1 ≤ hdrs.list.length) (hmax : hdrs.list.length ≤ 100000) :
    msgHeadersParse (bufWriteVarint (BitVec.ofNat 64 hdrs.list.length) ++
      (msgsetWriterWriteMsgHeaders hdrs).1) = some (.ok hdrs) := by
  set data := bufWriteVarint (BitVec.ofNat 64 hdrs.list.length) ++
    (msgsetWriterWriteMsgHeaders hdrs).1 with hdata
  have hne : data ≠ [] := by
    simp [hdata, bufWriteVarint_ne_nil]
  have hlen0 : data.length ≠ 0 := by
    simpa using hne
  have hbytes : data.drop 0 = bufWriteVarint (BitVec.ofNat 64 hdrs.list.length) ++
      ((hdrs.list.map writeMsgHeader).flatten ++ []) := by
    simp [hdata, msgsetWriterWriteMsgHeaders]
  have hcount : (BitVec.ofNat 64 hdrs.list.length).toInt = hdrs.list.length :=
    toInt_ofNat_of_lt (by omega)
  have hcountNat : (BitVec.ofNat 64 hdrs.list.length).toNat = hdrs.list.length := by
    rw [BitVec.toNat_ofNat]
    omega
  rw [msgHeadersParse, if_neg hlen0, bufNewShadow_eq hne]
  dsimp only
  rw [bufReadVarint_window_write le_rfl _ hbytes (add_length_le_of_drop_eq hbytes
    (bufWriteVarint_ne_nil _))]
  dsimp only
  rw [hcount, if_neg (by omega), if_neg (by omega), hcountNat,
    headersParseLoop_run hdrs.list h.sized (drop_add_length_of_drop_eq hbytes)]
  simp only [headersNew, List.nil_append, Nat.zero_add]
  rw [← h.total]

/-- Headers built by adds and removes of names and values shorter than `2^34` bytes, with
`1` to `100000` of them: the writer writes `rkhdrs_ser_size` bytes, and the parser reads
back from the `HeaderCount` and those bytes the same headers, in the same order, with the
same names, values (`NULL` apart from empty) and sizes. -/
theorem msgHeaders_roundTrip (ops : List HeaderOp) (hops : ∀ op ∈ ops, op.Ok)
    (hpos : 1 ≤ (headerOpsRun ops).list.length)
    (hmax : (headerOpsRun ops).list.length ≤ 100000) :
    (msgsetWriterWriteMsgHeaders (headerOpsRun ops)).2 = (headerOpsRun ops).serSize ∧
      msgHeadersParse (bufWriteVarint (BitVec.ofNat 64 (headerOpsRun ops).list.length) ++
        (msgsetWriterWriteMsgHeaders (headerOpsRun ops)).1) = some (.ok (headerOpsRun ops)) := by
  have h := headerOps_consistent ops hops
  exact ⟨msgsetWriterWriteMsgHeaders_length h, msgHeadersParse_write h hpos hmax⟩

theorem msgHeaders_roundTrip_add_remove :
    let ops := [HeaderOp.add [0x6b] (some [0x76]), .add [0x6e] none, .add [0x65] (some []),
      .remove [0x6b]]
    (∀ op ∈ ops, op.Ok) ∧ 1 ≤ (headerOpsRun ops).list.length ∧
      (headerOpsRun ops).list.length ≤ 100000 ∧
      ((msgsetWriterWriteMsgHeaders (headerOpsRun ops)).2 = (headerOpsRun ops).serSize ∧
        msgHeadersParse (bufWriteVarint (BitVec.ofNat 64 (headerOpsRun ops).list.length) ++
          (msgsetWriterWriteMsgHeaders (headerOpsRun ops)).1) = some (.ok (headerOpsRun ops))) := by
  intro ops
  have hops : ∀ op ∈ ops, op.Ok := by simp [ops, HeaderOp.Ok]
  have hpos : 1 ≤ (headerOpsRun ops).list.length := by decide
  have hmax : (headerOpsRun ops).list.length ≤ 100000 := by decide
  exact ⟨hops, hpos, hmax, msgHeaders_roundTrip ops hops hpos hmax⟩

/-- One add of a name with a `NULL` value. -/
theorem headerOpsRun_add_none (name : List UInt8) :
    headerOpsRun [.add name none] =
      ⟨[⟨name, none, headerSerSize name.length 0⟩], headerSerSize name.length 0⟩ := by
  rw [headerOpsRun, List.foldl_cons, List.foldl_nil, HeaderOp.apply, headerAdd_eq]
  simp [headersNew]

/-- A header with a `NULL` value and a name of `2^34` bytes or more: the recorded size
leaves out the name's length, which the writer writes. -/
theorem headerOpsRun_add_long_name {name : List UInt8} (hlo : 2 ^ 34 ≤ name.length)
    (hhi : name.length < 2 ^ 63) :
    (headerOpsRun [.add name none]).serSize = name.length + 1 ∧
      (msgsetWriterWriteMsgHeaders (headerOpsRun [.add name none])).2 =
        name.length + (encode (2 * name.length)).length + 1 := by
  have hzero : (uvarintEncI64 (uvarintEncSizeof 4) (BitVec.ofNat 64 0)).1 = 1 := by decide
  have hser : headerSerSize name.length 0 = name.length + 1 := by
    rw [headerSerSize, uvarintEncI64_int32_sizeof_long hlo hhi, hzero]
  rw [headerOpsRun_add_none]
  refine ⟨hser, ?_⟩
  rw [msgsetWriterWriteMsgHeaders]
  simp only [List.map_cons, List.map_nil, List.flatten_cons, List.flatten_nil, List.append_nil,
    writeMsgHeader_none, bufWriteVarint_eq, toNat_zigzagEncode_neg_one,
    toNat_zigzagEncode_ofNat hhi, List.length_append, encode_of_lt (show 1 < 128 by decide),
    List.length_singleton]
  omega

/-- The name of `2^34` zero bytes: `2^34 + 1` bytes recorded, `2^34 + 7` written. -/
theorem headerAdd_serSize_long_name :
    let hdrs := headerOpsRun [.add (List.replicate (2 ^ 34) 0) none]
    hdrs.serSize = 2 ^ 34 + 1 ∧ (msgsetWriterWriteMsgHeaders hdrs).2 = 2 ^ 34 + 7 := by
  intro hdrs
  have hlen : (List.replicate (2 ^ 34) (0 : UInt8)).length = 2 ^ 34 := List.length_replicate
  have hsix : (encode (2 * 2 ^ 34)).length = 6 :=
    le_antisymm (length_encode_le 5 (by decide)) (lt_length_encode 5 (by decide))
  obtain ⟨hser, hwrite⟩ :=
    headerOpsRun_add_long_name (by rw [hlen]) (by rw [hlen]; decide)
  rw [hlen] at hser hwrite
  rw [hsix] at hwrite
  exact ⟨hser, hwrite⟩

end Rdkafka

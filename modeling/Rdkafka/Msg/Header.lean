import Rdkafka.Buf.KafkaBuf

/-!
# Message headers

This file models the message headers of `src/rdkafka_header.c`: a headers object
`rd_kafka_headers_t` is a list of headers with the total of their serialized sizes, kept
up to date by `rd_kafka_header_add` and `rd_kafka_header_remove`.  It also models the two
functions that move headers to and from the wire in the `MsgVersion` 2 format:
`rd_kafka_msgset_writer_write_msg_headers` (`src/rdkafka_msgset_writer.c`), which writes
each header as a varint name length, the name, a varint value length (`-1` for a `NULL`
value) and the value, and `rd_kafka_msg_headers_parse` (`src/rdkafka_msg.c`), which reads
them back through a shadow buffer and `rd_kafka_header_add`.

Pointers to memory are the bytes from the pointer on (`List UInt8`), and a pointer that may
be `NULL` is an `Option`.  `ssize_t` arguments are integers, `-1` meaning "use `strlen`".
A header's name and value sizes are the lengths of its stored name and value.

The writer's output is the bytes it hands to `rd_kafka_buf_write` in order; its return
value is their number.
-/

set_option autoImplicit false

namespace Rdkafka

/-- `strlen(p)`: the bytes before the first `NUL`. -/
def strlen (p : List UInt8) : ℕ := (p.takeWhile (· ≠ 0)).length

/-- `strcmp(a, b) == 0`: the two strings agree up to their terminating `NUL`. -/
def strEq (a b : List UInt8) : Bool := a.takeWhile (· ≠ 0) == b.takeWhile (· ≠ 0)

/-- A header `rd_kafka_header_t`. -/
structure Header where
  /-- `rkhdr_name[0 .. rkhdr_name_size)`. -/
  name : List UInt8
  /-- `rkhdr_value[0 .. rkhdr_value_size)`, `none` for a `NULL` value. -/
  value : Option (List UInt8)
  /-- `rkhdr_ser_size`. -/
  serSize : ℕ
  deriving DecidableEq, Repr

/-- `rkhdr_value_size`: `0` for a `NULL` value. -/
def Header.valueSize (hdr : Header) : ℕ := (hdr.value.map List.length).getD 0

/-- A headers object `rd_kafka_headers_t`. -/
structure Headers where
  /-- `rkhdrs_list`. -/
  list : List Header
  /-- `rkhdrs_ser_size`. -/
  serSize : ℕ
  deriving DecidableEq, Repr

/-- `rd_kafka_headers_new(initial_count)`; the count only sizes the list's memory. -/
def headersNew : Headers := ⟨[], 0⟩

/-- The serialized size `rd_kafka_header_add` records: the name and value bytes and their
lengths as varints, each encoded into a buffer of `RD_UVARINT_ENC_SIZEOF(int32_t)`
bytes. -/
def headerSerSize (nameSize valueSize : ℕ) : ℕ :=
  nameSize + valueSize +
    (uvarintEncI64 (uvarintEncSizeof 4) (BitVec.ofNat 64 nameSize)).1 +
    (uvarintEncI64 (uvarintEncSizeof 4) (BitVec.ofNat 64 valueSize)).1

/-- `rd_kafka_header_add(hdrs, name, name_size, value, value_size)`, which always returns
`RD_KAFKA_RESP_ERR_NO_ERROR`.  The sizes are at least `-1`, and the memory at `name` and
`value` holds at least that many bytes. -/
def headerAdd (hdrs : Headers) (name : List UInt8) (nameSize : ℤ)
    (value : Option (List UInt8)) (valueSize : ℤ) : Headers :=
  let nameSize := if nameSize = -1 then strlen name else nameSize.toNat
  let valueSize :=
    if valueSize = -1 then (match value with | some v => strlen v | none => 0)
    else if value.isNone then 0 else valueSize.toNat
  let hdr : Header :=
    ⟨name.take nameSize, value.map (·.take valueSize), headerSerSize nameSize valueSize⟩
  ⟨hdrs.list ++ [hdr], hdrs.serSize + hdr.serSize⟩

/-- The `RD_LIST_FOREACH_REVERSE` loop of `rd_kafka_header_remove`: from the last header
back, each one whose name is `name` leaves the list and adds its size to `ser_size`. -/
def headerRemoveLoop (name : List UInt8) : List Header → List Header × ℕ :=
  List.foldr (fun hdr r =>
    if strEq (hdr.name ++ [0]) name then (r.1, r.2 + hdr.serSize) else (hdr :: r.1, r.2))
    ([], 0)

/-- `rd_kafka_header_remove(hdrs, name)`: `RD_KAFKA_RESP_ERR__NOENT` when nothing was
removed.  The total is at least `ser_size`, as its `rd_dassert` checks. -/
def headerRemove (hdrs : Headers) (name : List UInt8) : RespErr × Headers :=
  let r := headerRemoveLoop name hdrs.list
  if r.2 = 0 then (.noent, { hdrs with list := r.1 })
  else (.noError, ⟨r.1, hdrs.serSize - r.2⟩)

/-! ## Writing and parsing -/

/-- The bytes `rd_kafka_msgset_writer_write_msg_headers` writes for one header. -/
def writeMsgHeader (hdr : Header) : List UInt8 :=
  bufWriteVarint (BitVec.ofNat 64 hdr.name.length) ++ hdr.name ++
    bufWriteVarint (if hdr.value.isSome then BitVec.ofNat 64 hdr.valueSize else -1) ++
    (hdr.value.getD []).take hdr.valueSize

@[simp] theorem writeMsgHeader_none (name : List UInt8) (serSize : ℕ) :
    writeMsgHeader ⟨name, none, serSize⟩ =
      bufWriteVarint (BitVec.ofNat 64 name.length) ++ name ++ bufWriteVarint (-1) := by
  simp [writeMsgHeader, Header.valueSize]

@[simp] theorem writeMsgHeader_some (name v : List UInt8) (serSize : ℕ) :
    writeMsgHeader ⟨name, some v, serSize⟩ =
      bufWriteVarint (BitVec.ofNat 64 name.length) ++ name ++
        bufWriteVarint (BitVec.ofNat 64 v.length) ++ v := by
  simp [writeMsgHeader, Header.valueSize]

/-- `rd_kafka_msgset_writer_write_msg_headers(msetw, hdrs)`: the bytes written after the
`HeaderCount` varint, and their number, which it returns. -/
def msgsetWriterWriteMsgHeaders (hdrs : Headers) : List UInt8 × ℕ :=
  let bytes := (hdrs.list.map writeMsgHeader).flatten
  (bytes, bytes.length)

/-- The `for (i = 0; i < HeaderCount; i++)` loop of `rd_kafka_msg_headers_parse` with `n`
headers still to read: each is read and added with `rd_kafka_header_add`.  `none` is a
`NULL` name pointer used as memory. -/
def headersParseLoop (b : Buf) : ℕ → Slice → Headers → Option (Except RespErr Headers)
  | 0, _, hdrs => some (.ok hdrs)
  | n + 1, s, hdrs =>
    match bufReadVarint b s with
    | .error e => some (.error e)
    | .ok (keyLen, s) =>
      match bufReadPtr b s keyLen.toNat with
      | none => none
      | some (.error e) => some (.error e)
      | some (.ok (none, _)) => none
      | some (.ok (some key, s)) =>
        match bufReadVarint b s with
        | .error e => some (.error e)
        | .ok (valueLen, s) =>
          if valueLen = -1 then
            headersParseLoop b n s (headerAdd hdrs key keyLen.toInt none valueLen.toInt)
          else
            match bufReadPtr b s valueLen.toNat with
            | none => none
            | some (.error e) => some (.error e)
            | some (.ok (value, s)) =>
              headersParseLoop b n s (headerAdd hdrs key keyLen.toInt value valueLen.toInt)

/-- `rd_kafka_msg_headers_parse(rkm)` on the serialized headers `binhdrs`: the parsed
headers, or the error it returns.  `none` is undefined behaviour or a failed assertion. -/
def msgHeadersParse (binhdrs : List UInt8) : Option (Except RespErr Headers) :=
  if binhdrs.length = 0 then some (.error .noent)
  else
    match bufNewShadow binhdrs with
    | none => none
    | some (b, s) =>
      match bufReadVarint b s with
      | .error e => some (.error e)
      | .ok (headerCount, s) =>
        if headerCount.toInt ≤ 0 then some (.error .noent)
        else if headerCount.toInt > 100000 then some (.error .badMsg)
        else headersParseLoop b headerCount.toNat s headersNew

end Rdkafka

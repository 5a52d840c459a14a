import Limpid.Wire

/-!
# The envelope of control requests on Windows

A named pipe cannot be half closed, so a control request travels over it in blocks: a big-endian
length of four bytes before each, and a length of zero at the end.  `request.rs` of
`limpid-windows` has the polled `Writer` and `Reader`, and `pipe.rs` the blocking `Client`.

Within one poll of ours the inner stream is polled several times.  What it answers is a list; when
the list is used up the inner stream is pending.  What an answer moves is bounded by what there is
to move, and at least one byte is moved as long as there is one, because an answer of no bytes
means the end of the stream to `poll_read`.
-/

namespace Limpid.Control.Envelope

open Wire (toBe ofBe)

/-- `MAX_FRAME`. -/
def maxFrame : ℕ := 65536

/-- The kinds of `io::Error` that the envelope makes or passes on. -/
inductive IoError where
  | unexpectedEof | invalidData (message : String) | brokenPipe | writeZero | inner
deriving DecidableEq

/-- `std::task::Poll`. -/
inductive Poll (α : Type) where
  | pending
  | ready (result : Except IoError α)

/-- What the inner stream answers to one poll. -/
inductive Answer where
  | pending
  | failed
  | moved (count : ℕ)

/-- A block with its length before it. -/
def block (bytes : Bytes) : Bytes := toBe 4 bytes.length ++ bytes

/-- The mark of the end of a request. -/
def finish : Bytes := toBe 4 0

/-! ## The polled writer -/

/-- `Writer`: the bytes of a block that are not yet on the wire. -/
structure Writer where
  pending : Bytes := []
  offset : ℕ := 0
  ended : Bool := false

/-- What a poll leaves behind: its result, the writer, the bytes on the pipe, and the answers that
are left for the rest of the poll. -/
structure Written (α : Type) where
  poll : Poll α
  writer : Writer
  wire : Bytes
  answers : List Answer

/-- The pending bytes go to the wire, as far as the inner stream takes them. -/
def Writer.drain (writer : Writer) (wire : Bytes) : List Answer → Written Unit
  | [] =>
      if writer.offset < writer.pending.length then ⟨.pending, writer, wire, []⟩
      else ⟨.ready (.ok ()), { writer with pending := [], offset := 0 }, wire, []⟩
  | answer :: answers =>
      if writer.offset < writer.pending.length then
        match answer with
        | .pending => ⟨.pending, writer, wire, answers⟩
        | .failed => ⟨.ready (.error .inner), writer, wire, answers⟩
        | .moved count =>
            let sent := (writer.pending.drop writer.offset).take count
            if sent.length = 0 then ⟨.ready (.error .writeZero), writer, wire, answers⟩
            else Writer.drain { writer with offset := writer.offset + sent.length } (wire ++ sent)
              answers
      else
        ⟨.ready (.ok ()), { writer with pending := [], offset := 0 }, wire, answer :: answers⟩

/-- `poll_write`: a block is begun once the one before it is gone. -/
def Writer.pollWrite (writer : Writer) (wire bytes : Bytes) (answers : List Answer) : Written ℕ :=
  if writer.ended then ⟨.ready (.error .brokenPipe), writer, wire, answers⟩
  else
    match writer.drain wire answers with
    | ⟨.pending, writer, wire, answers⟩ => ⟨.pending, writer, wire, answers⟩
    | ⟨.ready (.error e), writer, wire, answers⟩ => ⟨.ready (.error e), writer, wire, answers⟩
    | ⟨.ready (.ok ()), writer, wire, answers⟩ =>
        let count := min bytes.length maxFrame
        if count ≠ 0 then
          ⟨.ready (.ok count),
            { writer with pending := writer.pending ++ toBe 4 count ++ bytes.take count },
            wire, answers⟩
        else ⟨.ready (.ok count), writer, wire, answers⟩

/-- `flush` is what the inner stream answers to a flush. -/
def Writer.pollFlush (writer : Writer) (wire : Bytes) (answers : List Answer) (flush : Poll Unit) :
    Written Unit :=
  match writer.drain wire answers with
  | ⟨.ready (.ok ()), writer, wire, answers⟩ => ⟨flush, writer, wire, answers⟩
  | written => written

/-- `poll_shutdown`: the empty block that ends the stream. -/
def Writer.pollShutdown (writer : Writer) (wire : Bytes) (answers : List Answer)
    (flush : Poll Unit) : Written Unit :=
  match writer.drain wire answers with
  | ⟨.ready (.ok ()), writer, wire, answers⟩ =>
      let writer := if !writer.ended then
        { writer with pending := writer.pending ++ toBe 4 0, ended := true } else writer
      match writer.drain wire answers with
      | ⟨.ready (.ok ()), writer, wire, answers⟩ => ⟨flush, writer, wire, answers⟩
      | written => written
  | written => written

/-! ## The blocking client -/

/-- `Write::write_all`: it may fail with any number of bytes written, but not with all of them. -/
def writeAll (wire bytes : Bytes) : Option ℕ → Bytes × Bool
  | none => (wire ++ bytes, true)
  | some count => (wire ++ bytes.take (min count (bytes.length - 1)), false)

/-- The blocking client. -/
structure Client where
  ended : Bool := false
  poisoned : Bool := false

/-- The two calls of `write_all` may fail; the second is made when the first has not. -/
def Client.write (client : Client) (wire bytes : Bytes) (header payload : Option ℕ) :
    Except IoError ℕ × Client × Bytes :=
  if client.ended || client.poisoned then (.error .brokenPipe, client, wire)
  else
    let count := min bytes.length maxFrame
    if count = 0 then (.ok 0, client, wire)
    else
      match writeAll wire (toBe 4 count) header with
      | (wire, false) => (.error .inner, { client with poisoned := true }, wire)
      | (wire, true) =>
        match writeAll wire (bytes.take count) payload with
        | (wire, false) => (.error .inner, { client with poisoned := true }, wire)
        | (wire, true) => (.ok count, client, wire)

/-- `shutdown(Shutdown::Write)`. -/
def Client.shutdown (client : Client) (wire : Bytes) (mark : Option ℕ) :
    Except IoError Unit × Client × Bytes :=
  if client.poisoned then (.error .brokenPipe, client, wire)
  else if client.ended then (.ok (), client, wire)
  else
    match writeAll wire (toBe 4 0) mark with
    | (wire, true) => (.ok (), { client with ended := true }, wire)
    | (wire, false) => (.error .inner, { ended := true, poisoned := true }, wire)

/-! ## The polled reader -/

/-- `Reader`. -/
structure Reader where
  /-- The first `header_len` bytes of `header`. -/
  header : Bytes := []
  remaining : ℕ := 0
  ended : Bool := false

/-- What a poll leaves behind; `input` is what has yet to arrive before the pipe is closed. -/
structure Filled (α : Type) where
  poll : Poll α
  reader : Reader
  input : Bytes
  answers : List Answer

/-- What the inner stream fills into a buffer when it answers that it has moved bytes. -/
def moved (input : Bytes) (count room : ℕ) : Bytes := input.take (min (max count 1) room)

/-- The error for a block that is too long. -/
def oversizedMessage : String := "control request frame exceeds 65536 bytes"

/-- The loop that reads a header while nothing remains of a block. -/
def Reader.readHeader (reader : Reader) (input : Bytes) : List Answer → Filled Unit
  | [] =>
      if reader.remaining = 0 then ⟨.pending, reader, input, []⟩
      else ⟨.ready (.ok ()), reader, input, []⟩
  | answer :: answers =>
      if reader.remaining = 0 then
        match answer with
        | .pending => ⟨.pending, reader, input, answers⟩
        | .failed => ⟨.ready (.error .inner), reader, input, answers⟩
        | .moved count =>
            let filled := moved input count (4 - reader.header.length)
            if filled.length = 0 then ⟨.ready (.error .unexpectedEof), reader, input, answers⟩
            else
              let header := reader.header ++ filled
              let input := input.drop filled.length
              if header.length < 4 then
                Reader.readHeader { reader with header := header } input answers
              else
                let reader := { reader with header := [], remaining := ofBe header }
                if reader.remaining > maxFrame then
                  ⟨.ready (.error (.invalidData oversizedMessage)), reader, input, answers⟩
                else if reader.remaining = 0 then
                  ⟨.ready (.ok ()), { reader with ended := true }, input, answers⟩
                else Reader.readHeader reader input answers
      else ⟨.ready (.ok ()), reader, input, answer :: answers⟩

/-- `room` is what the caller's buffer has room for. -/
def Reader.pollRead (reader : Reader) (input : Bytes) (room : ℕ) (answers : List Answer) :
    Filled Bytes :=
  if reader.ended ∨ room = 0 then ⟨.ready (.ok []), reader, input, answers⟩
  else
    match reader.readHeader input answers with
    | ⟨.pending, reader, input, answers⟩ => ⟨.pending, reader, input, answers⟩
    | ⟨.ready (.error e), reader, input, answers⟩ => ⟨.ready (.error e), reader, input, answers⟩
    | ⟨.ready (.ok ()), reader, input, answers⟩ =>
        if reader.ended then ⟨.ready (.ok []), reader, input, answers⟩
        else
          match answers with
          | [] => ⟨.pending, reader, input, []⟩
          | .pending :: answers => ⟨.pending, reader, input, answers⟩
          | .failed :: answers => ⟨.ready (.error .inner), reader, input, answers⟩
          | .moved count :: answers =>
              let filled := moved input count (min room reader.remaining)
              if filled.length = 0 then ⟨.ready (.error .unexpectedEof), reader, input, answers⟩
              else
                ⟨.ready (.ok filled), { reader with remaining := reader.remaining - filled.length },
                  input.drop filled.length, answers⟩

end Limpid.Control.Envelope

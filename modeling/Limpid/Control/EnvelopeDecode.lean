import Limpid.Control.Envelope

/-!
# What the reader of control requests makes of the bytes that arrive

It does not depend on how they are cut, nor on the buffers the reader is given: it is `decode` of
these bytes (`Receiver.inv_run`).

The obstacle is the header, which may arrive in up to four parts, with polls that are pending in
between and with a block after it within the same poll.  `Reader.left` is what is yet to be decoded
in any of these states, and `headerRead` and `blockRead` say what a poll does to it.
-/

namespace Limpid.Control.Envelope

open Wire (toBe ofBe)

/-! ## Decoding -/

/-- How the bytes that have arrived end. -/
inductive Ending where
  | done | truncated | oversized
deriving DecidableEq

/-- More bytes before what is decoded. -/
def prepend (bytes : Bytes) (rest : Bytes × Ending) : Bytes × Ending := (bytes ++ rest.1, rest.2)

/-- The blocks of an input, put together, and how it ends. -/
def decode (input : Bytes) : Bytes × Ending :=
  if input.length < 4 then ([], .truncated)
  else if ofBe (input.take 4) > maxFrame then ([], .oversized)
  else if ofBe (input.take 4) = 0 then ([], .done)
  else if (input.drop 4).length < ofBe (input.take 4) then (input.drop 4, .truncated)
  else prepend ((input.drop 4).take (ofBe (input.take 4)))
    (decode ((input.drop 4).drop (ofBe (input.take 4))))
termination_by input.length
decreasing_by
  rw [List.length_drop, List.length_drop]
  omega

/-- What is decoded while `n` bytes remain of a block. -/
def payload (n : ℕ) (input : Bytes) : Bytes × Ending :=
  if input.length < n then (input, .truncated)
  else prepend (input.take n) (decode (input.drop n))

section Decode

variable {input : Bytes}

theorem decode_eq (h : 4 ≤ input.length) (hmax : ofBe (input.take 4) ≤ maxFrame)
    (hne : ofBe (input.take 4) ≠ 0) :
    decode input = payload (ofBe (input.take 4)) (input.drop 4) := by
  rw [decode, if_neg (by omega), if_neg (by omega), if_neg hne, payload]

@[simp] theorem payload_zero : payload 0 input = decode input := by simp [payload, prepend]

theorem prepend_prepend (first second : Bytes) (rest : Bytes × Ending) :
    prepend first (prepend second rest) = prepend (first ++ second) rest := by
  simp [prepend]

/-- A block may be decoded in parts. -/
theorem payload_take {n k : ℕ} (hk : k ≤ n) (hinput : k ≤ input.length) :
    payload n input = prepend (input.take k) (payload (n - k) (input.drop k)) := by
  unfold payload
  rw [List.length_drop]
  by_cases h : input.length < n
  · rw [if_pos h, if_pos (by omega)]
    simp [prepend]
  · have hsplit : input.take n = input.take k ++ (input.drop k).take (n - k) := by
      rw [← List.take_add, Nat.add_sub_cancel' hk]
    have hrest : input.drop n = (input.drop k).drop (n - k) := by
      rw [List.drop_drop, Nat.add_sub_cancel' hk]
    rw [if_neg h, if_neg (by omega), prepend_prepend, hsplit, hrest]

end Decode

/-! ## The reader decodes -/

/-- The header is not complete, or the block it announced is not. -/
structure Reader.Ok (reader : Reader) : Prop where
  header : reader.header.length < 4
  between : reader.remaining ≠ 0 → reader.header = []

/-- What is yet to be decoded. -/
def Reader.left (reader : Reader) (input : Bytes) : Bytes × Ending :=
  if reader.remaining = 0 then decode (reader.header ++ input) else payload reader.remaining input

/-- The ways in which the loop over the header may end; `before` was to be decoded before it. -/
inductive HeaderRead (before : Bytes × Ending) : Filled Unit → Prop where
  | pending {reader : Reader} {input : Bytes} {answers : List Answer} (hok : reader.Ok)
      (hended : reader.ended = false) (hleft : reader.left input = before) :
      HeaderRead before ⟨.pending, reader, input, answers⟩
  | failed {reader : Reader} {input : Bytes} {answers : List Answer} :
      HeaderRead before ⟨.ready (.error .inner), reader, input, answers⟩
  | block {reader : Reader} {input : Bytes} {answers : List Answer} (hok : reader.Ok)
      (hended : reader.ended = false) (hne : reader.remaining ≠ 0)
      (hleft : payload reader.remaining input = before) :
      HeaderRead before ⟨.ready (.ok ()), reader, input, answers⟩
  | done {reader : Reader} {input : Bytes} {answers : List Answer} (hended : reader.ended = true)
      (hleft : before = ([], .done)) : HeaderRead before ⟨.ready (.ok ()), reader, input, answers⟩
  | eof {reader : Reader} {input : Bytes} {answers : List Answer}
      (hleft : before = ([], .truncated)) :
      HeaderRead before ⟨.ready (.error .unexpectedEof), reader, input, answers⟩
  | oversized {reader : Reader} {input : Bytes} {answers : List Answer}
      (hleft : before = ([], .oversized)) :
      HeaderRead before
        ⟨.ready (.error (.invalidData oversizedMessage)), reader, input, answers⟩

theorem length_moved (input : Bytes) (count room : ℕ) :
    (moved input count room).length = min (min (max count 1) room) input.length :=
  List.length_take

theorem moved_append (input : Bytes) (count room : ℕ) :
    moved input count room ++ input.drop (moved input count room).length = input := by
  unfold moved
  rw [List.length_take]
  rcases Nat.le_total (min (max count 1) room) input.length with h | h
  · rw [Nat.min_eq_left h]
    exact List.take_append_drop _ _
  · rw [Nat.min_eq_right h, List.take_of_length_le h, List.drop_length, List.append_nil]

/-- **The header, however it is cut.** -/
theorem headerRead {reader : Reader} (input : Bytes) (answers : List Answer) (hok : reader.Ok)
    (hended : reader.ended = false) :
    HeaderRead (reader.left input) (reader.readHeader input answers) := by
  induction answers generalizing reader input with
  | nil =>
      rw [Reader.readHeader]
      split
      · exact .pending hok hended rfl
      · next hne => exact .block hok hended hne (by rw [Reader.left, if_neg hne])
  | cons answer answers ih =>
      unfold Reader.readHeader
      split
      · next hzero =>
        cases answer with
        | pending => exact .pending hok hended rfl
        | failed => exact .failed
        | moved count =>
            have hroom := hok.header
            have hlength := length_moved input count (4 - reader.header.length)
            have hsplit := moved_append input count (4 - reader.header.length)
            have hleft : reader.left input = decode (reader.header ++ input) := if_pos hzero
            dsimp only
            generalize moved input count (4 - reader.header.length) = filled at hlength hsplit ⊢
            split
            · next hnone =>
              -- the room is not empty, so the input is
              have hinput : input = [] := List.eq_nil_of_length_eq_zero (by omega)
              refine .eof ?_
              rw [hleft, hinput, List.append_nil, decode, if_pos hroom]
            · next hsome =>
              have hall : reader.header ++ input =
                  (reader.header ++ filled) ++ input.drop filled.length := by
                rw [List.append_assoc, hsplit]
              split
              · next hshort =>
                have hnext := @ih { reader with header := reader.header ++ filled }
                  (input.drop filled.length) ⟨hshort, fun h => absurd hzero h⟩ hended
                rwa [Reader.left, if_pos hzero, ← hall, ← hleft] at hnext
              · next hfull =>
                have hfour : (reader.header ++ filled).length = 4 := by
                  rw [List.length_append] at hfull ⊢
                  omega
                rw [hall] at hleft
                generalize reader.header ++ filled = header at hfour hleft
                have htake : (header ++ input.drop filled.length).take 4 = header := by
                  rw [← hfour, List.take_left]
                have hdrop : (header ++ input.drop filled.length).drop 4 =
                    input.drop filled.length := by
                  rw [← hfour, List.drop_left]
                have hlong : ¬(header ++ input.drop filled.length).length < 4 := by
                  rw [List.length_append]
                  omega
                split
                · next hbig =>
                  refine .oversized ?_
                  rw [hleft, decode, if_neg hlong, htake, if_pos hbig]
                · next hle =>
                  split
                  · next hend =>
                    refine .done rfl ?_
                    rw [hleft, decode, if_neg hlong, htake, if_neg hle, if_pos hend]
                  · next hne =>
                    have hnext := @ih { reader with header := [], remaining := ofBe header }
                      (input.drop filled.length) ⟨Nat.succ_pos 3, fun _ => rfl⟩ hended
                    rw [Reader.left, if_neg hne] at hnext
                    rwa [hleft, decode_eq (Nat.not_lt.mp hlong) (by rw [htake]; omega)
                      (by rwa [htake]), htake, hdrop]
      · next hne => exact .block hok hended hne (by rw [Reader.left, if_neg hne])

/-- The ways in which a poll may end. -/
inductive BlockRead (before : Bytes × Ending) : Filled Bytes → Prop where
  | pending {reader : Reader} {input : Bytes} {answers : List Answer} (hok : reader.Ok)
      (hended : reader.ended = false) (hleft : reader.left input = before) :
      BlockRead before ⟨.pending, reader, input, answers⟩
  | failed {reader : Reader} {input : Bytes} {answers : List Answer} :
      BlockRead before ⟨.ready (.error .inner), reader, input, answers⟩
  | filled {reader : Reader} {input bytes : Bytes} {answers : List Answer} (hok : reader.Ok)
      (hended : reader.ended = false) (hne : bytes ≠ [])
      (hleft : prepend bytes (reader.left input) = before) :
      BlockRead before ⟨.ready (.ok bytes), reader, input, answers⟩
  | done {reader : Reader} {input : Bytes} {answers : List Answer} (hended : reader.ended = true)
      (hleft : before = ([], .done)) : BlockRead before ⟨.ready (.ok []), reader, input, answers⟩
  | eof {reader : Reader} {input : Bytes} {answers : List Answer}
      (hleft : before = ([], .truncated)) :
      BlockRead before ⟨.ready (.error .unexpectedEof), reader, input, answers⟩
  | oversized {reader : Reader} {input : Bytes} {answers : List Answer}
      (hleft : before = ([], .oversized)) :
      BlockRead before
        ⟨.ready (.error (.invalidData oversizedMessage)), reader, input, answers⟩

theorem blockRead {reader : Reader} (input : Bytes) {room : ℕ} (answers : List Answer)
    (hok : reader.Ok) (hended : reader.ended = false) (hroom : room ≠ 0) :
    BlockRead (reader.left input) (reader.pollRead input room answers) := by
  rw [Reader.pollRead, if_neg (by simp [hended, hroom])]
  have hheader := headerRead input answers hok hended
  generalize reader.left input = before at hheader ⊢
  cases hread : reader.readHeader input answers with
  | mk poll reader input answers =>
  rw [hread] at hheader
  -- the header first, then as much of the block as has come
  cases hheader with
  | pending hok hended hleft => exact .pending hok hended hleft
  | failed => exact .failed
  | done hended hleft =>
      dsimp only
      rw [if_pos hended]
      exact .done hended hleft
  | eof hleft => exact .eof hleft
  | oversized hleft => exact .oversized hleft
  | block hok hended hne hleft =>
      have hpayload : reader.left input = before := by rw [Reader.left, if_neg hne, hleft]
      dsimp only
      rw [if_neg (by simp [hended])]
      cases answers with
      | nil => exact .pending hok hended hpayload
      | cons answer answers =>
          cases answer with
          | pending => exact .pending hok hended hpayload
          | failed => exact .failed
          | moved count =>
              have hlength := length_moved input count (min room reader.remaining)
              have hsplit := moved_append input count (min room reader.remaining)
              dsimp only
              generalize moved input count (min room reader.remaining) = filled at hlength hsplit ⊢
              split
              · next hnone =>
                have hinput : input = [] := List.eq_nil_of_length_eq_zero (by omega)
                refine .eof ?_
                rw [← hleft, hinput, payload, List.length_nil, if_pos (Nat.pos_of_ne_zero hne)]
              · next hsome =>
                have htake : input.take filled.length = filled := by
                  conv_lhs => rw [← hsplit, List.take_left]
                have hheader := hok.between hne
                refine .filled ⟨hok.header, fun _ => hheader⟩ hended
                  (fun hnil => hsome (by rw [hnil]; rfl)) ?_
                rw [← hleft, payload_take (k := filled.length) (by omega) (by omega), htake,
                  Reader.left]
                split
                · next hzero =>
                  dsimp only at hzero
                  rw [hzero, payload_zero, hheader, List.nil_append]
                · rfl

/-! ## The receiving side -/

/-- The server reads until the end of the request or an error. -/
structure Receiver where
  reader : Reader := {}
  input : Bytes
  read : Bytes := []
  result : Option (Except IoError Unit) := none

/-- One poll with room in the buffer. -/
structure Asked where
  room : ℕ
  room_ne : room ≠ 0
  answers : List Answer

/-- One poll of the reader. -/
def Receiver.step (receiver : Receiver) (asked : Asked) : Receiver :=
  match receiver.result with
  | some _ => receiver
  | none =>
    match receiver.reader.pollRead receiver.input asked.room asked.answers with
    | ⟨.pending, reader, input, _⟩ => { receiver with reader, input }
    | ⟨.ready (.error e), reader, input, _⟩ =>
        { receiver with reader, input, result := some (.error e) }
    | ⟨.ready (.ok []), reader, input, _⟩ =>
        { receiver with reader, input, result := some (.ok ()) }
    | ⟨.ready (.ok bytes), reader, input, _⟩ =>
        { receiver with reader, input, read := receiver.read ++ bytes }

/-- The polls of a reader, one after another. -/
def Receiver.run (receiver : Receiver) (polls : List Asked) : Receiver :=
  polls.foldl Receiver.step receiver

/-- What has been read and how it ended, against what the bytes are decoded to. -/
inductive Receiver.Inv (total : Bytes × Ending) : Receiver → Prop where
  | reading {reader : Reader} {input read : Bytes} (hok : reader.Ok)
      (hended : reader.ended = false) (hleft : prepend read (reader.left input) = total) :
      Receiver.Inv total ⟨reader, input, read, none⟩
  | done {reader : Reader} {input read : Bytes} (htotal : total = (read, .done)) :
      Receiver.Inv total ⟨reader, input, read, some (.ok ())⟩
  | failed {reader : Reader} {input read : Bytes} (hread : read <+: total.1) :
      Receiver.Inv total ⟨reader, input, read, some (.error .inner)⟩
  | eof {reader : Reader} {input read : Bytes} (htotal : total = (read, .truncated)) :
      Receiver.Inv total ⟨reader, input, read, some (.error .unexpectedEof)⟩
  | oversized {reader : Reader} {input read : Bytes} (htotal : total = (read, .oversized)) :
      Receiver.Inv total ⟨reader, input, read, some (.error (.invalidData oversizedMessage))⟩

/-- A receiver that has come to the end stays there. -/
theorem Receiver.run_ended {receiver : Receiver} {result : Except IoError Unit}
    (h : receiver.result = some result) (polls : List Asked) : receiver.run polls = receiver := by
  induction polls with
  | nil => rfl
  | cons asked polls ih =>
      have hstep : receiver.step asked = receiver := by rw [Receiver.step, h]
      calc receiver.run (asked :: polls) = (receiver.step asked).run polls := rfl
        _ = receiver := by rw [hstep, ih]

theorem Receiver.Inv.step {total : Bytes × Ending} {receiver : Receiver}
    (h : receiver.Inv total) (asked : Asked) : (receiver.step asked).Inv total := by
  cases h with
  | done htotal => exact .done htotal
  | failed hread => exact .failed hread
  | eof htotal => exact .eof htotal
  | oversized htotal => exact .oversized htotal
  | @reading reader input read hok hended hleft =>
      have hblock := blockRead input asked.answers hok hended asked.room_ne
      unfold Receiver.step
      dsimp only
      cases hpoll : reader.pollRead input asked.room asked.answers with
      | mk poll reader' input' answers =>
      rw [hpoll] at hblock
      cases hblock with
      | pending hok' hended' hleft' => exact .reading hok' hended' (hleft' ▸ hleft)
      | failed => exact .failed (hleft ▸ List.prefix_append _ _)
      | @filled _ _ bytes _ hok' hended' hne hleft' =>
          cases bytes with
          | nil => exact absurd rfl hne
          | cons b bytes =>
              refine .reading hok' hended' ?_
              rw [← prepend_prepend, hleft', hleft]
      | done hended' hleft' => exact .done (by rw [← hleft, hleft']; simp [prepend])
      | eof hleft' => exact .eof (by rw [← hleft, hleft']; simp [prepend])
      | oversized hleft' => exact .oversized (by rw [← hleft, hleft']; simp [prepend])

theorem Receiver.inv_run (input : Bytes) (polls : List Asked) :
    (({ input } : Receiver).run polls).Inv (decode input) := by
  suffices h : ∀ receiver : Receiver, receiver.Inv (decode input) →
      (receiver.run polls).Inv (decode input) from
    h _ (.reading ⟨by decide, fun h => absurd rfl h⟩ rfl (by simp [prepend, Reader.left]))
  induction polls with
  | nil => exact fun _ h => h
  | cons asked polls ih => exact fun receiver h => ih _ (h.step asked)

/-! ## The reader goes on -/

/-- A poll that has not come to nothing because of the inner stream. -/
def Poll.Served {α : Type} : Poll α → Prop
  | .pending => False
  | .ready (.error e) => e ≠ .inner
  | .ready (.ok _) => True

/-- The inner stream has bytes, or is closed, each time that it is polled. -/
def Moving (answers : List Answer) : Prop := ∀ answer ∈ answers, ∃ count, answer = .moved count

/-- One answer for each byte of the header and one for the bytes of the block are enough. -/
theorem header_served {reader : Reader} (input : Bytes) (answers : List Answer) (hok : reader.Ok)
    (hmoving : Moving answers)
    (hmany : reader.remaining = 0 → 4 - reader.header.length < answers.length)
    (hone : answers ≠ []) :
    (reader.readHeader input answers).poll.Served ∧
      ((reader.readHeader input answers).reader.ended = true ∨
        (reader.readHeader input answers).poll ≠ .ready (.ok ()) ∨
        ((reader.readHeader input answers).answers ≠ [] ∧
          Moving (reader.readHeader input answers).answers)) := by
  induction answers generalizing reader input with
  | nil => exact absurd rfl hone
  | cons answer answers ih =>
      obtain ⟨⟨count, rfl⟩, hmoving'⟩ := List.forall_mem_cons.mp hmoving
      unfold Reader.readHeader
      split
      · next hzero =>
        have hroom := hok.header
        have hcount := hmany hzero
        have hlength := length_moved input count (4 - reader.header.length)
        dsimp only
        generalize moved input count (4 - reader.header.length) = filled at hlength ⊢
        rw [List.length_cons] at hcount
        split
        · exact ⟨nofun, .inr (.inl nofun)⟩
        · next hsome =>
          have hone' : answers ≠ [] := List.ne_nil_of_length_pos (by omega)
          split
          · next hshort =>
            rw [List.length_append] at hshort
            exact ih _ ⟨by rwa [List.length_append], fun h => absurd hzero h⟩ hmoving'
              (fun _ => by rw [List.length_append]; omega) hone'
          · next hfull =>
            split
            · exact ⟨nofun, .inr (.inl nofun)⟩
            · split
              · exact ⟨trivial, .inl rfl⟩
              · next hne =>
                exact ih _ ⟨Nat.succ_pos 3, fun _ => rfl⟩ hmoving' (fun h => absurd h hne) hone'
      · exact ⟨trivial, .inr (.inr ⟨hone, hmoving⟩)⟩

theorem poll_served {reader : Reader} (input : Bytes) (room : ℕ) {answers : List Answer}
    (hok : reader.Ok) (hmoving : Moving answers) (hmany : 5 ≤ answers.length) :
    (reader.pollRead input room answers).poll.Served := by
  unfold Reader.pollRead
  split
  · trivial
  · obtain ⟨hserved, hnext⟩ := header_served input answers hok hmoving (fun _ => by omega)
      (List.ne_nil_of_length_pos (by omega))
    cases hread : reader.readHeader input answers with
    | mk poll reader input answers =>
    rw [hread] at hserved hnext
    cases poll with
    | pending => exact hserved
    | ready result =>
      cases result with
      | error e => exact hserved
      | ok _ =>
        dsimp only
        split
        · trivial
        · next hended =>
          rcases hnext with h | h | ⟨hone, hmoving⟩
          · exact absurd h hended
          · exact absurd rfl h
          · obtain ⟨answer, answers, rfl⟩ := List.exists_cons_of_ne_nil hone
            obtain ⟨count, rfl⟩ := hmoving answer List.mem_cons_self
            dsimp only
            split
            · exact nofun
            · trivial

/-- A poll that is served either comes to the end of a whole request or reads some of it. -/
theorem Receiver.Inv.served {bytes : Bytes} {receiver : Receiver}
    (h : receiver.Inv (bytes, .done)) (hnone : receiver.result = none) {asked : Asked}
    (hmoving : Moving asked.answers) (hmany : 5 ≤ asked.answers.length) :
    (receiver.step asked).result = some (.ok ()) ∨
      (receiver.step asked).result = none ∧
        receiver.read.length < (receiver.step asked).read.length := by
  cases h with
  | done htotal => cases hnone
  | failed hread => cases hnone
  | eof htotal => cases hnone
  | oversized htotal => cases hnone
  | @reading reader input read hok hended hleft =>
      have hblock := blockRead input asked.answers hok hended asked.room_ne
      have hserved := poll_served input asked.room hok hmoving hmany
      unfold Receiver.step
      dsimp only
      cases hpoll : reader.pollRead input asked.room asked.answers with
      | mk poll reader' input' answers =>
      rw [hpoll] at hblock hserved
      cases hblock with
      | pending hok' hended' hleft' => exact absurd hserved id
      | failed => exact absurd rfl hserved
      | @filled _ _ bytes _ hok' hended' hne hleft' =>
          cases bytes with
          | nil => exact absurd rfl hne
          | cons b bytes =>
              refine .inr ⟨rfl, ?_⟩
              simp
      | done hended' hleft' => exact .inl rfl
      | eof hleft' => rw [hleft'] at hleft; cases hleft
      | oversized hleft' => rw [hleft'] at hleft; cases hleft

theorem Receiver.served_run {bytes : Bytes} {receiver : Receiver}
    (h : receiver.Inv (bytes, .done)) (hnone : receiver.result = none) {polls : List Asked}
    (hpolls : ∀ asked ∈ polls, Moving asked.answers ∧ 5 ≤ asked.answers.length) :
    (receiver.run polls).result = some (.ok ()) ∨
      receiver.read.length + polls.length ≤ (receiver.run polls).read.length := by
  induction polls generalizing receiver with
  | nil => exact .inr le_rfl
  | cons asked polls ih =>
      obtain ⟨⟨hmoving, hmany⟩, hpolls⟩ := List.forall_mem_cons.mp hpolls
      have hnext := h.step asked
      rcases h.served hnone hmoving hmany with hdone | ⟨hnone', hmore⟩
      · refine .inl ?_
        change ((receiver.step asked).run polls).result = some (.ok ())
        rw [Receiver.run_ended hdone, hdone]
      · rcases ih hnext hnone' hpolls with hdone | hlength
        · exact .inl hdone
        · refine .inr ?_
          rw [List.length_cons]
          change _ ≤ ((receiver.step asked).run polls).read.length
          omega

end Limpid.Control.Envelope

import JetStream.Comm.ConnectedSocket

namespace JetStream

/-- The handler collects a frame, and `processed` lists its calls of `process_message`. -/
structure ConnHandler where
  receivedData : List (List UInt8) := []
  nextFrameLen : ℤ := -1
  terminator : ℕ := 4
  closed : Bool := false
  processed : List (List UInt8) := []

namespace ConnHandler

/-- Packing refuses a length that does not fit a signed word. -/
def sendPb (buf : List UInt8) : Option (List UInt8) :=
  if buf.length < 2 ^ 31 then some (SerializedMessageOut.htonl buf.length ++ buf) else none

/-- Unpacking needs exactly four bytes, and the first one holds the sign. -/
def unpackLong : List UInt8 → Option ℤ
  | [a, b, c, d] =>
      let word : ℕ := a.toNat * 2 ^ 24 + b.toNat * 2 ^ 16 + c.toNat * 2 ^ 8 + d.toNat
      some (if word < 2 ^ 31 then (word : ℤ) else (word : ℤ) - 2 ^ 32)
  | _ => none

/-- The first data of a frame must begin with the whole header. -/
def collectIncomingData (handler : ConnHandler) (data : List UInt8) : Option ConnHandler :=
  if handler.nextFrameLen = -1 then
    (unpackLong (data.take 4)).map fun unpackedLen =>
      {handler with receivedData := handler.receivedData ++ [data.drop 4], nextFrameLen := unpackedLen}
  else some {handler with receivedData := handler.receivedData ++ [data]}

/-- After the header the handler waits for the frame, and after the frame it processes the message. -/
def foundTerminator (handler : ConnHandler) : Option ConnHandler :=
  let buf := handler.receivedData.flatten
  let handler := {handler with receivedData := []}
  if 0 < handler.nextFrameLen then
    if buf.length = 0 then some {handler with terminator := handler.nextFrameLen.toNat, nextFrameLen := 0} else none
  else if buf.length = 0 then some handler
  else some {handler with processed := handler.processed ++ [buf], terminator := 4, nextFrameLen := -1}

/-- Data is handed over until the terminator's count of bytes is reached, and an exception closes the connection. -/
def readLoop : ℕ → ConnHandler → List UInt8 → ConnHandler
  | 0, handler, _ => handler
  | fuel + 1, handler, inBuffer =>
      if inBuffer = [] then handler
      else if handler.terminator = 0 then
        match handler.collectIncomingData inBuffer with
        | none => {handler with closed := true}
        | some next => next
      else if inBuffer.length < handler.terminator then
        match handler.collectIncomingData inBuffer with
        | none => {handler with closed := true}
        | some next => {next with terminator := next.terminator - inBuffer.length}
      else
        match (handler.collectIncomingData (inBuffer.take handler.terminator)).bind fun next =>
          foundTerminator {next with terminator := 0} with
        | none => {handler with closed := true}
        | some next => readLoop fuel next (inBuffer.drop handler.terminator)

/-- A closed connection receives nothing, and each turn takes at least one byte from the buffer. -/
def handleRead (handler : ConnHandler) (data : List UInt8) : ConnHandler :=
  if handler.closed then handler else readLoop data.length handler data

def receive (chunks : List (List UInt8)) : ConnHandler := chunks.foldl handleRead {}

/-- This offset of the stream lies inside the header of a message, after its first byte. -/
def insideHeader : List (List UInt8) → ℕ → Prop
  | [], _ => False
  | message :: rest, offset =>
      (0 < offset ∧ offset < 4) ∨ (4 + message.length ≤ offset ∧ insideHeader rest (offset - (4 + message.length)))

instance decidableInsideHeader : (messages : List (List UInt8)) → (offset : ℕ) → Decidable (insideHeader messages offset)
  | [], _ => isFalse id
  | message :: rest, offset =>
      have := decidableInsideHeader rest (offset - (4 + message.length))
      inferInstanceAs (Decidable (_ ∨ _))

/-- The bytes of a message on the wire. -/
def frame (message : List UInt8) : List UInt8 := SerializedMessageOut.htonl message.length ++ message

theorem htonl_length (len : ℕ) : (SerializedMessageOut.htonl len).length = 4 := rfl

/-- The header gives back the length of its message. -/
theorem unpackLong_htonl {len : ℕ} (fits : len < 2 ^ 31) :
    unpackLong (SerializedMessageOut.htonl len) = some (len : ℤ) := by
  have word : (UInt8.ofNat (len / 2 ^ 24)).toNat * 2 ^ 24 + (UInt8.ofNat (len / 2 ^ 16)).toNat * 2 ^ 16 +
      (UInt8.ofNat (len / 2 ^ 8)).toNat * 2 ^ 8 + (UInt8.ofNat len).toNat = len := by
    simp only [UInt8.toNat_ofNat']
    omega
  simp only [SerializedMessageOut.htonl, unpackLong, word, fits, if_true]

theorem mapM_sendPb_eq_some {messages frames : List (List UInt8)} (sent : messages.mapM sendPb = some frames) :
    frames = messages.map frame ∧ ∀ message ∈ messages, message.length < 2 ^ 31 := by
  induction messages generalizing frames with
  | nil =>
      rw [List.mapM_nil] at sent
      obtain rfl := Option.some.inj sent
      exact ⟨rfl, by simp⟩
  | cons message rest ih =>
      rw [List.mapM_cons, Option.bind_eq_bind, Option.bind_eq_some_iff] at sent
      obtain ⟨first, sentFirst, sent⟩ := sent
      rw [Option.bind_eq_bind, Option.bind_eq_some_iff] at sent
      obtain ⟨others, sentRest, same⟩ := sent
      obtain rfl := Option.some.inj same
      obtain ⟨rfl, fit⟩ := ih sentRest
      rw [sendPb, Option.ite_none_right_eq_some] at sentFirst
      obtain ⟨fits, sentFirst⟩ := sentFirst
      obtain rfl := Option.some.inj sentFirst
      exact ⟨rfl, List.forall_mem_cons.mpr ⟨fits, fit⟩⟩

/-- The handler waits for a header, or for the rest of a message whose first part it has. -/
inductive Place where
  | header
  | body (first rest : List UInt8)

namespace Place

/-- These messages are not processed yet. -/
def messages : Place → List (List UInt8) → List (List UInt8)
  | header, later => later
  | body first rest, later => (first ++ rest) :: later

/-- These bytes are not received yet. -/
def bytes : Place → List (List UInt8) → List UInt8
  | header, later => (later.map frame).flatten
  | body _ rest, later => rest ++ (later.map frame).flatten

/-- This many bytes later a header is cut. -/
def inside : Place → List (List UInt8) → ℕ → Prop
  | header, later, offset => insideHeader later offset
  | body _ rest, later, offset => rest.length ≤ offset ∧ insideHeader later (offset - rest.length)

end Place

/-- The handler's fields say where it stands. -/
structure At (handler : ConnHandler) (place : Place) : Prop where
  isOpen : handler.closed = false
  fields : match place with
    | .header => handler.receivedData = [] ∧ handler.nextFrameLen = -1 ∧ handler.terminator = 4
    | .body first rest => handler.receivedData.flatten = first ∧ handler.nextFrameLen = 0 ∧
        handler.terminator = rest.length ∧ rest ≠ []

section ReadLoop

variable {handler : ConnHandler} {inBuffer : List UInt8} (fuel : ℕ)

/-- A part of a header closes the connection. -/
theorem At.cutHeader (standing : handler.At .header) (some : inBuffer ≠ []) (short : inBuffer.length < 4) :
    readLoop (fuel + 1) handler inBuffer = {handler with closed := true} := by
  obtain ⟨received, waits, terminator⟩ := standing.fields
  have unpacked : unpackLong (inBuffer.take 4) = none := by
    rw [List.take_of_length_le short.le]
    match inBuffer, short with
    | [], _ => rfl
    | [_], _ => rfl
    | [_, _], _ => rfl
    | [_, _, _], _ => rfl
  simp only [readLoop, some, if_false, terminator, OfNat.ofNat_ne_zero, short, if_true, collectIncomingData, waits,
    unpacked, Option.map_none]

/-- A whole header is followed by its message. -/
theorem At.wholeHeader (standing : handler.At .header) (inBuffer : List UInt8) {message : List UInt8}
    (fits : message.length < 2 ^ 31) (nonempty : message ≠ []) :
    ∃ next : ConnHandler, next.At (.body [] message) ∧ next.processed = handler.processed ∧
      readLoop (fuel + 1) handler (SerializedMessageOut.htonl message.length ++ inBuffer) =
        readLoop fuel next inBuffer := by
  obtain ⟨received, waits, terminator⟩ := standing.fields
  have positive : (0 : ℤ) < message.length := Int.natCast_pos.mpr (List.length_pos_iff.mpr nonempty)
  have header : (SerializedMessageOut.htonl message.length ++ inBuffer).take 4 =
      SerializedMessageOut.htonl message.length := List.take_left' (htonl_length _)
  have rest : (SerializedMessageOut.htonl message.length ++ inBuffer).drop 4 = inBuffer :=
    List.drop_left' (htonl_length _)
  have some : SerializedMessageOut.htonl message.length ++ inBuffer ≠ [] := by
    simp [SerializedMessageOut.htonl]
  have long : ¬ (SerializedMessageOut.htonl message.length ++ inBuffer).length < 4 := by
    rw [List.length_append, htonl_length]
    omega
  have header' : (SerializedMessageOut.htonl message.length).take 4 = SerializedMessageOut.htonl message.length :=
    List.take_of_length_le (htonl_length _).le
  have nothing : (SerializedMessageOut.htonl message.length).drop 4 = [] :=
    List.drop_of_length_le (htonl_length _).le
  refine ⟨{handler with receivedData := [], nextFrameLen := 0, terminator := message.length}, ⟨standing.isOpen, ?_⟩,
    rfl, ?_⟩
  · exact ⟨rfl, rfl, rfl, nonempty⟩
  · simp only [readLoop, some, if_false, terminator, OfNat.ofNat_ne_zero, long, header, rest, collectIncomingData, waits,
      if_true, header', nothing, unpackLong_htonl fits, Option.map_some, Option.bind_some, foundTerminator, received,
      List.nil_append, List.flatten_cons, List.flatten_nil, List.append_nil, List.length_nil, positive,
      Int.toNat_natCast]

/-- A part of a message is kept. -/
theorem At.partOfBody {first rest : List UInt8} (standing : handler.At (.body first (inBuffer ++ rest)))
    (some : inBuffer ≠ []) (more : rest ≠ []) :
    (readLoop (fuel + 1) handler inBuffer).At (.body (first ++ inBuffer) rest) ∧
      (readLoop (fuel + 1) handler inBuffer).processed = handler.processed := by
  obtain ⟨received, waits, terminator, -⟩ := standing.fields
  have positive : 0 < rest.length := List.length_pos_iff.mpr more
  have long : (inBuffer ++ rest).length ≠ 0 := by
    rw [List.length_append]
    omega
  have short : inBuffer.length < (inBuffer ++ rest).length := by
    rw [List.length_append]
    omega
  simp only [readLoop, some, if_false, terminator, long, short, if_true, collectIncomingData, waits,
    show (0 : ℤ) ≠ -1 by decide]
  refine ⟨⟨standing.isOpen, ?_, rfl, ?_, more⟩, trivial⟩
  · simp [received]
  · simp

/-- A whole message is processed. -/
theorem At.wholeBody {first rest : List UInt8} (standing : handler.At (.body first rest)) (inBuffer : List UInt8) :
    ∃ next : ConnHandler, next.At .header ∧ next.processed = handler.processed ++ [first ++ rest] ∧
      readLoop (fuel + 1) handler (rest ++ inBuffer) = readLoop fuel next inBuffer := by
  obtain ⟨received, waits, terminator, nonempty⟩ := standing.fields
  have positive : rest.length ≠ 0 := fun none => nonempty (List.length_eq_zero_iff.mp none)
  have size : (first ++ rest).length ≠ 0 := by
    rw [List.length_append]
    omega
  have some : rest ++ inBuffer ≠ [] := fun none => nonempty (List.append_eq_nil_iff.mp none).1
  have long : ¬ (rest ++ inBuffer).length < rest.length := by
    rw [List.length_append]
    omega
  refine ⟨{handler with
      receivedData := [], nextFrameLen := -1, terminator := 4, processed := handler.processed ++ [first ++ rest]},
    ⟨standing.isOpen, ?_⟩, rfl, ?_⟩
  · exact ⟨rfl, rfl, rfl⟩
  · simp only [readLoop, some, if_false, terminator, positive, long, List.take_left, List.drop_left,
      collectIncomingData, waits, show (0 : ℤ) ≠ -1 by decide, Option.bind_some, foundTerminator, List.flatten_append,
      received, List.flatten_cons, List.flatten_nil, List.append_nil, size, lt_irrefl]

end ReadLoop

theorem not_insideHeader_zero (messages : List (List UInt8)) : ¬ insideHeader messages 0 := by
  cases messages with
  | nil => exact id
  | cons message rest =>
      rw [insideHeader]
      omega

theorem At.not_inside_zero {handler : ConnHandler} {place : Place} (standing : handler.At place)
    (later : List (List UInt8)) : ¬ place.inside later 0 := by
  cases place with
  | header => exact not_insideHeader_zero later
  | body first rest =>
      have nonempty := List.length_pos_iff.mpr standing.fields.2.2.2
      rw [Place.inside]
      omega

/-- The handler stands before these messages, which may be sent. -/
structure Awaits (handler : ConnHandler) (place : Place) (later : List (List UInt8)) : Prop where
  standing : handler.At place
  nonempty : ∀ message ∈ later, message ≠ []
  fits : ∀ message ∈ later, message.length < 2 ^ 31

/-- A buffer that cuts a header closes the connection before its message, and any other buffer leads to the place where
it ends. -/
def Follows (handler next : ConnHandler) (place : Place) (later : List (List UInt8)) (received : ℕ)
    (unread : List UInt8) : Prop :=
  (place.inside later received →
    next.closed = true ∧ next.processed.length < handler.processed.length + (place.messages later).length) ∧
  (¬ place.inside later received → ∃ place' later', next.Awaits place' later' ∧ place'.bytes later' = unread ∧
    next.processed ++ place'.messages later' = handler.processed ++ place.messages later ∧
    ∀ offset, place'.inside later' offset ↔ place.inside later (received + offset))

section Receive

variable {handler middle next : ConnHandler} {place place' : Place} {later later' : List (List UInt8)}
  {first received : ℕ} {inBuffer unread : List UInt8}

/-- What follows from a later place follows from the earlier one. -/
theorem Follows.of_later (follows : Follows middle next place' later' received unread)
    (same : middle.processed ++ place'.messages later' = handler.processed ++ place.messages later)
    (shift : ∀ offset, place'.inside later' offset ↔ place.inside later (first + offset)) :
    Follows handler next place later (first + received) unread := by
  have size := congrArg List.length same
  rw [List.length_append, List.length_append] at size
  constructor
  · intro cut
    obtain ⟨closed, fewer⟩ := follows.1 ((shift received).mpr cut)
    exact ⟨closed, by omega⟩
  · intro whole
    obtain ⟨place₂, later₂, awaits, bytes, messages, inside⟩ := follows.2 fun cut => whole ((shift received).mp cut)
    refine ⟨place₂, later₂, awaits, bytes, messages.trans same, ?_⟩
    intro offset
    rw [inside, shift, Nat.add_assoc]

theorem Awaits.follows_nil (awaits : handler.Awaits place later) :
    Follows handler handler place later 0 (place.bytes later) := by
  constructor
  · intro cut
    exact absurd cut (awaits.standing.not_inside_zero later)
  · intro _
    exact ⟨place, later, awaits, rfl, rfl, fun offset => by rw [Nat.zero_add]⟩

/-- A shorter first part of the same bytes is the start of the longer one. -/
theorem exists_rest {a b c d : List UInt8} (same : a ++ b = c ++ d) (short : a.length ≤ c.length) :
    ∃ rest, c = a ++ rest ∧ b = rest ++ d := by
  obtain ⟨rest, rfl⟩ : a <+: c := List.prefix_of_prefix_length_le ⟨b, same⟩ ⟨d, rfl⟩ short
  rw [List.append_assoc] at same
  exact ⟨rest, rfl, List.append_cancel_left same⟩

/-- After a header the cuts are counted from the start of its message. -/
theorem inside_afterHeader (message : List UInt8) (later : List (List UInt8)) (offset : ℕ) :
    (Place.body [] message).inside later offset ↔ Place.header.inside (message :: later) (4 + offset) := by
  simp only [Place.inside, insideHeader]
  rw [show 4 + offset - (4 + message.length) = offset - message.length by omega]
  constructor
  · rintro ⟨past, cut⟩
    exact Or.inr ⟨by omega, cut⟩
  · rintro (cut | ⟨past, cut⟩)
    · omega
    · exact ⟨by omega, cut⟩

/-- After a message the cuts are counted from the next header. -/
theorem inside_afterBody (start rest : List UInt8) (later : List (List UInt8)) (offset : ℕ) :
    Place.header.inside later offset ↔ (Place.body start rest).inside later (rest.length + offset) := by
  simp only [Place.inside]
  rw [Nat.add_sub_cancel_left]
  exact (and_iff_right (Nat.le_add_right _ _)).symm

/-- A buffer that ends inside a header closes the connection. -/
theorem Awaits.follows_cutHeader {message : List UInt8} (awaits : handler.Awaits .header (message :: later))
    (some : inBuffer ≠ []) (short : inBuffer.length < 4) (fuel : ℕ) (unread : List UInt8) :
    Follows handler (ConnHandler.readLoop (fuel + 1) handler inBuffer) .header (message :: later) inBuffer.length
      unread := by
  rw [awaits.standing.cutHeader fuel some short]
  have positive : 0 < inBuffer.length := List.length_pos_iff.mpr some
  refine ⟨fun _ => ⟨rfl, ?_⟩, fun whole => absurd (Or.inl ⟨positive, short⟩) whole⟩
  simp [Place.messages]

/-- A buffer that ends inside a message leaves the handler in the message. -/
theorem Awaits.follows_part {start more : List UInt8} (awaits : handler.Awaits (.body start (inBuffer ++ more)) later)
    (some : inBuffer ≠ []) (unfinished : more ≠ []) (fuel : ℕ) :
    Follows handler (ConnHandler.readLoop (fuel + 1) handler inBuffer) (.body start (inBuffer ++ more)) later
      inBuffer.length (more ++ (later.map frame).flatten) := by
  obtain ⟨nextAt, processed⟩ := awaits.standing.partOfBody fuel some unfinished
  have positive : 0 < more.length := List.length_pos_iff.mpr unfinished
  constructor
  · rintro ⟨past, -⟩
    rw [List.length_append] at past
    omega
  · intro _
    refine ⟨.body (start ++ inBuffer) more, later, ⟨nextAt, awaits.nonempty, awaits.fits⟩, rfl, ?_, ?_⟩
    · rw [processed, Place.messages, Place.messages, List.append_assoc]
    · intro offset
      simp only [Place.inside, List.length_append]
      rw [show inBuffer.length + offset - (inBuffer.length + more.length) = offset - more.length by omega]
      exact and_congr_left' (by omega)

/-- The loop goes through the buffer, however it is cut. -/
theorem Awaits.readLoop {fuel : ℕ} (awaits : handler.Awaits place later)
    (stream : place.bytes later = inBuffer ++ unread) (enough : inBuffer.length ≤ fuel) :
    Follows handler (ConnHandler.readLoop fuel handler inBuffer) place later inBuffer.length unread := by
  induction fuel generalizing handler place later inBuffer with
  | zero =>
      obtain rfl := List.length_eq_zero_iff.mp (Nat.le_zero.mp enough)
      rw [List.nil_append] at stream
      rw [← stream]
      exact awaits.follows_nil
  | succ fuel ih =>
      by_cases none : inBuffer = []
      · subst none
        rw [List.nil_append] at stream
        rw [← stream]
        exact awaits.follows_nil
      have standing := awaits.standing
      cases place with
      | header =>
          cases later with
          | nil => exact absurd (List.append_eq_nil_iff.mp stream.symm).1 none
          | cons message later =>
              obtain ⟨messageNe, laterNe⟩ := List.forall_mem_cons.mp awaits.nonempty
              obtain ⟨messageFits, laterFits⟩ := List.forall_mem_cons.mp awaits.fits
              have bytes : SerializedMessageOut.htonl message.length ++ (Place.body [] message).bytes later =
                  inBuffer ++ unread := by
                rw [← stream]
                simp [Place.bytes, frame]
              by_cases short : inBuffer.length < 4
              · exact awaits.follows_cutHeader none short fuel unread
              · obtain ⟨rest, rfl, remaining⟩ := exists_rest bytes ((htonl_length _).trans_le (Nat.le_of_not_lt short))
                obtain ⟨next, nextAt, processed, reads⟩ := standing.wholeHeader fuel rest messageFits messageNe
                rw [reads, List.length_append, htonl_length]
                rw [List.length_append, htonl_length] at enough
                have follows := ih ⟨nextAt, laterNe, laterFits⟩ remaining (by omega)
                exact follows.of_later (by rw [processed]; rfl) (inside_afterHeader message later)
      | body start rest =>
          have restPos := List.length_pos_iff.mpr standing.fields.2.2.2
          by_cases whole : rest.length ≤ inBuffer.length
          · obtain ⟨more, rfl, remaining⟩ := exists_rest stream whole
            obtain ⟨next, nextAt, processed, reads⟩ := standing.wholeBody fuel more
            rw [reads, List.length_append]
            rw [List.length_append] at enough
            have headerAwaits : next.Awaits .header later := ⟨nextAt, awaits.nonempty, awaits.fits⟩
            refine (ih headerAwaits remaining (by omega)).of_later ?_ (inside_afterBody start rest later)
            rw [processed, List.append_assoc]
            rfl
          · obtain ⟨more, rfl, rfl⟩ := exists_rest stream.symm (Nat.le_of_not_le whole)
            rw [List.length_append] at whole
            exact awaits.follows_part none (List.length_pos_iff.mp (by omega)) fuel

theorem foldl_closed (chunks : List (List UInt8)) (closed : handler.closed = true) :
    chunks.foldl handleRead handler = handler := by
  induction chunks with
  | nil => rfl
  | cons chunk rest ih =>
      rw [List.foldl_cons, handleRead, if_pos closed]
      exact ih

/-- Nothing is left to process when all bytes are received. -/
theorem Awaits.messages_eq_nil (awaits : handler.Awaits place later) (all : place.bytes later = []) :
    place.messages later = [] := by
  cases place with
  | body first rest => exact absurd (List.append_eq_nil_iff.mp all).1 awaits.standing.fields.2.2.2
  | header =>
      cases later with
      | nil => rfl
      | cons message later => simp [Place.bytes, frame, SerializedMessageOut.htonl] at all

/-- All messages are processed exactly when no chunk ends inside a header. -/
theorem Awaits.processed_iff {chunks : List (List UInt8)} (awaits : handler.Awaits place later)
    (cut : chunks.flatten = place.bytes later) :
    (chunks.foldl handleRead handler).processed = handler.processed ++ place.messages later ↔
      ∀ count, ¬ place.inside later (chunks.take count).flatten.length := by
  induction chunks generalizing handler place later with
  | nil =>
      refine iff_of_true ?_ ?_
      · rw [awaits.messages_eq_nil cut.symm, List.append_nil, List.foldl_nil]
      · intro count
        rw [List.take_nil]
        exact awaits.standing.not_inside_zero later
  | cons chunk chunks ih =>
      have split (count : ℕ) : ((chunk :: chunks).take (count + 1)).flatten.length =
          chunk.length + (chunks.take count).flatten.length := by
        rw [List.take_succ_cons, List.flatten_cons, List.length_append]
      rw [List.flatten_cons] at cut
      have follows := awaits.readLoop cut.symm le_rfl
      rw [List.foldl_cons, handleRead, awaits.standing.isOpen, if_neg Bool.false_ne_true]
      by_cases inside : place.inside later chunk.length
      · obtain ⟨closed, fewer⟩ := follows.1 inside
        rw [foldl_closed chunks closed]
        refine iff_of_false ?_ ?_
        · intro same
          have size := congrArg List.length same
          rw [List.length_append] at size
          omega
        · intro whole
          refine whole 1 ?_
          rw [split]
          simpa using inside
      · obtain ⟨place', later', awaits', bytes, messages, shift⟩ := follows.2 inside
        rw [← messages, ih awaits' bytes.symm]
        constructor
        · rintro whole (_ | count)
          · rw [List.take_zero]
            exact awaits.standing.not_inside_zero later
          · rw [split, ← shift]
            exact whole count
        · intro whole count
          rw [shift, ← split]
          exact whole (count + 1)

end Receive

/-- The handler processes exactly the messages that were sent, in order, exactly when no chunk ends inside a header. -/
theorem receive_processed_iff (messages frames chunks : List (List UInt8)) (nonempty : ∀ message ∈ messages, message ≠ [])
    (sent : messages.mapM sendPb = some frames) (cut : chunks.flatten = frames.flatten) :
    (receive chunks).processed = messages ↔ ∀ count, ¬ insideHeader messages (chunks.take count).flatten.length := by
  obtain ⟨rfl, fits⟩ := mapM_sendPb_eq_some sent
  have awaits : Awaits {} .header messages := ⟨⟨rfl, rfl, rfl, rfl⟩, nonempty, fits⟩
  exact awaits.processed_iff cut

/-- Both messages come whole, and the second one in two parts. -/
theorem receive_processed_iff_parts :
    (receive [[0, 0, 0, 1, 7, 0, 0, 0, 2], [8], [9]]).processed = [[7], [8, 9]] ↔
      ∀ count, ¬ insideHeader [[7], [8, 9]]
        (([[0, 0, 0, 1, 7, 0, 0, 0, 2], [8], [9]] : List (List UInt8)).take count).flatten.length :=
  receive_processed_iff [[7], [8, 9]] [[0, 0, 0, 1, 7], [0, 0, 0, 2, 8, 9]] [[0, 0, 0, 1, 7, 0, 0, 0, 2], [8], [9]]
    (by decide) (by decide) (by decide)

/-- The first chunk ends after two bytes of the header. -/
theorem receive_cut_header : sendPb [7] = some [0, 0, 0, 1, 7] ∧
    (receive [[0, 0], [0, 1, 7]]).processed = [] ∧ (receive [[0, 0], [0, 1, 7]]).closed = true := by
  decide

end ConnHandler

end JetStream

import Outbox.Queue.Segment

/-!
# The queue

A queue of records on disk, for one writer and one reader. Records get the versions 1, 2, 3, ... in
the order in which they are put, and are read in that order. What was delivered is acknowledged by
version; segments that hold nothing newer are removed, and a queue that is opened again begins after
the acknowledged version.

* `Queue` is the state of an open queue, `Queue.openIn` opens one in a folder;
* `Queue.put`, `Queue.get`, `Queue.getUpTo` and `Queue.ack` move records;
* `Queue.flush`, `Queue.close` and `Queue.removeIfEmpty` deal with the files;
* every operation takes the disk and gives an `Outcome`: the disk and the queue after it, also if it
  failed.
-/

namespace Outbox

/-- The name of the file that holds the acknowledged version. -/
def ackName : String := "last_ack_version"

/-- The default limit of the length of a segment. -/
def defaultSegmentSize : Nat := 64 * 1024 * 1024

/-- A version in eight bytes, the most significant first. -/
def versionBytes (v : Nat) : List UInt8 :=
  wordBytes (v / UInt32.size) ++ wordBytes v

/-- The version in the first eight bytes; zero if there are fewer. -/
def versionIn (bytes : List UInt8) : Nat :=
  match word? bytes with
  | none => 0
  | some (high, rest) =>
    match word? rest with
    | none => 0
    | some (low, _) => high * UInt32.size + low

/-- The files of the segments of a queue, by version. -/
abbrev SegmentTable := List (Nat × String)

/-- Adds a segment, or gives it another file. -/
def SegmentTable.set (table : SegmentTable) (id : Nat) (file : String) : SegmentTable :=
  match table with
  | [] => [(id, file)]
  | (id', file') :: rest =>
    if id < id' then (id, file) :: (id', file') :: rest
    else if id = id' then (id, file) :: rest
    else (id', file') :: set rest id file

/-- The segments in a folder. Only files count. -/
def segmentsIn (d : Disk) (folder : Place) : SegmentTable :=
  (d.children folder).foldl (fun table child =>
    match child.2, segmentId? child.1 with
    | .file _, some id => table.set id child.1
    | _, _ => table) []

/-- An open queue. -/
structure Queue where
  folder : Place
  /-- A segment that holds a record already does not grow beyond this. -/
  maxSize : Nat
  segments : SegmentTable
  writer : Option SegmentWriter
  /-- The segment that is being read. -/
  readId : Nat
  reader : Option SegmentReader
  ackFile : Nat
  lastPut : Nat
  lastRead : Nat
  lastAck : Nat
deriving DecidableEq

/-- What an operation on a queue leaves behind and answers. -/
structure Outcome (α : Type) where
  disk : Disk
  queue : Queue
  result : Except QueueError α

/-- A record read from a queue, with the length of its frame. -/
structure Element (α : Type) where
  record : Record α
  size : Nat
deriving DecidableEq

namespace Queue

/-! ### State -/

/-- The number of records that are not acknowledged. -/
def size (q : Queue) : Nat :=
  q.lastPut - q.lastAck

/-- Whether all records are acknowledged, and nothing else is. -/
def isEmpty (q : Queue) : Bool :=
  q.lastPut == q.lastAck

/-- The segments after the one that is being read. -/
def laterIds (q : Queue) : List Nat :=
  (q.segments.map Prod.fst).filter (q.readId < ·)

/-- Whether the reader is so far behind that it should go on: by more than one segment, or by one
that is half full. -/
def isOverflowing (q : Queue) : Bool :=
  match q.writer with
  | none => false
  | some w =>
    match q.laterIds with
    | [] => false
    | [_] => q.maxSize / 2 ≤ w.size
    | _ => true

/-! ### Removing segments -/

/-- Removes a segment; the reader goes on with the next one. -/
def removeSegment (d : Disk) (q : Queue) (id next : Nat) (file : String) : Outcome Unit :=
  let q' := { q with segments := q.segments.filter fun s => s.1 ≠ id }
  let q'' := if q'.readId = id then { q' with reader := none, readId := next } else q'
  match d.unlink? (q.folder ++ [file]) with
  | some d' => ⟨d', q'', .ok ()⟩
  | none => ⟨d, q'', .error (.deleteSegment file)⟩

/-- Removes the segments at the head of a table whose records are all acknowledged: those with a
successor that begins at most one after the acknowledged version. -/
def pruneAlong (d : Disk) (q : Queue) : SegmentTable → Outcome Unit
  | (id, file) :: (next, nextFile) :: rest =>
    if q.lastAck + 1 < next then ⟨d, q, .ok ()⟩
    else
      match q.removeSegment d id next file with
      | ⟨d', q', .ok ()⟩ => q'.pruneAlong d' ((next, nextFile) :: rest)
      | ⟨d', q', .error e⟩ => ⟨d', q', .error e⟩
  | _ => ⟨d, q, .ok ()⟩

/-- Removes the segments whose records are all acknowledged. -/
def prune (d : Disk) (q : Queue) : Outcome Unit :=
  q.pruneAlong d q.segments

/-! ### Opening -/

/-- The segment in which to read on after a version: the last that begins at or before the next
version, or else the first. -/
def readIdFor (segments : SegmentTable) (lastAck newest : Nat) : Nat :=
  let ids := segments.map Prod.fst
  match (ids.filter (· ≤ lastAck + 1)).getLast?, ids.head? with
  | some id, _ => id
  | none, some id => id
  | none, none => newest

/-- Opens the newest segment for writing, or creates the first one. Whatever comes after the good
frames of that segment is cut off. Gives the writer and the version of the last record put. -/
def openNewest (d : Disk) (folder : Place) (segments : SegmentTable) (lastAck : Nat) :
    Disk × Except QueueError (SegmentTable × SegmentWriter × Nat) :=
  match segments.getLast? with
  | none =>
    let id := lastAck + 1
    match SegmentWriter.openAt d folder id 0 with
    | (d', .error e) => (d', .error e)
    | (d', .ok w) => (d', .ok (segments.set id (segmentName id), w, lastAck))
  | some (id, _) =>
    match d.content? (folder ++ [segmentName id]) with
    | none => (d, .error (.openSegment (segmentName id)))
    | some bytes =>
      let scan := scanSegment bytes
      match SegmentWriter.openAt d folder id scan.length with
      | (d', .error e) => (d', .error e)
      | (d', .ok w) => (d', .ok (segments, w, max (scan.lastVersion.getD (id - 1)) lastAck))

/-- Opens the queue in a folder, and creates the folder if there is none. -/
def openIn (d : Disk) (folder : Place) (maxSize : Nat) : Disk × Except QueueError Queue :=
  match d.makeFolders? folder with
  | none => (d, .error .createFolder)
  | some d₁ =>
    match d₁.create? (folder ++ [ackName]) with
    | none => (d₁, .error .ackFile)
    | some (d₂, ackFile) =>
      let lastAck := versionIn (d₂.read ackFile)
      match openNewest d₂ folder (segmentsIn d₂ folder) lastAck with
      | (d₃, .error e) => (d₃, .error e)
      | (d₃, .ok (segments, w, lastPut)) =>
        let q : Queue := ⟨folder, maxSize, segments, some w, readIdFor segments lastAck w.id, none,
          ackFile, lastPut, lastAck, lastAck⟩
        match q.prune d₃ with
        | ⟨d₄, q', .ok ()⟩ => (d₄, .ok q')
        | ⟨d₄, _, .error e⟩ => (d₄, .error e)

/-! ### Putting -/

/-- Hands everything that was written to the disk. -/
def flush (d : Disk) (q : Queue) : Disk × Queue :=
  match q.writer with
  | none => (d, q)
  | some w =>
    match w.flush d with
    | (d', w') => (d', { q with writer := some w' })

/-- Begins a new segment. -/
def roll (d : Disk) (q : Queue) (id : Nat) : Outcome Unit :=
  match q.flush d with
  | (d₁, q₁) =>
    match SegmentWriter.openAt d₁ q.folder id 0 with
    | (d₂, .error e) => ⟨d₂, q₁, .error e⟩
    | (d₂, .ok w) =>
      ⟨d₂, { q₁ with segments := q₁.segments.set id (segmentName id), writer := some w }, .ok ()⟩

/-- Begins a new segment if the current one holds a record and cannot hold so many bytes more. -/
def rollFor (d : Disk) (q : Queue) (w : SegmentWriter) (id bytes : Nat) : Outcome Unit :=
  if 0 < w.size ∧ q.maxSize < w.size + bytes then q.roll d id else ⟨d, q, .ok ()⟩

/-- Appends a payload to the current segment. -/
def append (d : Disk) (q : Queue) (payload : List UInt8) : Outcome Unit :=
  match q.writer with
  | none => ⟨d, q, .error .closed⟩
  | some w =>
    match w.put d payload with
    | (d', w', r) => ⟨d', { q with writer := some w' }, r⟩

/-- Puts an object, and gives the version of its record. -/
def put {α : Type} [Storable α] (d : Disk) (q : Queue) (now : Int) (obj : α) : Outcome Nat :=
  let version := q.lastPut + 1
  let payload := Record.payload ⟨obj, version, now⟩
  match q.writer with
  | none => ⟨d, q, .error .closed⟩
  | some w =>
    match q.rollFor d w version (Frame.size payload) with
    | ⟨d₁, q₁, .error e⟩ => ⟨d₁, q₁, .error e⟩
    | ⟨d₁, q₁, .ok ()⟩ =>
      match q₁.append d₁ payload with
      | ⟨d₂, q₂, .error e⟩ => ⟨d₂, q₂, .error e⟩
      | ⟨d₂, q₂, .ok ()⟩ => ⟨d₂, { q₂ with lastPut := version }, .ok version⟩

/-! ### Getting -/

/-- The reader of the segment that is being read, opened if need be. -/
def currentReader (d : Disk) (q : Queue) : Except QueueError SegmentReader :=
  match q.reader with
  | some r => .ok r
  | none => SegmentReader.openAt d q.folder q.readId

variable {α : Type} [Storable α]

/-- The next unread record in the segment that is being read or in later ones. -/
def getThrough (d : Disk) (q : Queue) (later : List Nat) :
    Queue × Except QueueError (Option (Element α)) :=
  match q.currentReader d with
  | .error e => (q, .error e)
  | .ok r =>
    match r.seek d q.lastRead with
    | (r', .failed e) => ({ q with reader := some r' }, .error e)
    | (r', .record record size) =>
      ({ q with reader := some r', lastRead := record.version }, .ok (some ⟨record, size⟩))
    | (r', .finished) =>
      match later with
      | [] => ({ q with reader := some r' }, .ok none)
      | next :: rest => getThrough d { q with reader := none, readId := next } rest

/-- The next unread record; none when all were read. -/
def get (d : Disk) (q : Queue) : Outcome (Option (Element α)) :=
  match q.flush d with
  | (d', q') =>
    match q'.getThrough d' q'.laterIds with
    | (q'', r) => ⟨d', q'', r⟩

/-- Up to `n` unread records. -/
def getUpTo (d : Disk) (q : Queue) : Nat → Outcome (List (Element α))
  | 0 => ⟨d, q, .ok []⟩
  | n + 1 =>
    match q.get d with
    | ⟨d', q', .error e⟩ => ⟨d', q', .error e⟩
    | ⟨d', q', .ok none⟩ => ⟨d', q', .ok []⟩
    | ⟨d', q', .ok (some e)⟩ =>
      match q'.getUpTo d' n with
      | ⟨d'', q'', r⟩ => ⟨d'', q'', r.map (e :: ·)⟩

/-! ### Acknowledging and closing -/

/-- Notes that all records up to a version were delivered. -/
def ack (d : Disk) (q : Queue) (version : Nat) : Outcome Unit :=
  if version ≤ q.lastAck then ⟨d, q, .ok ()⟩
  else
    let d' := d.update q.ackFile (versionBytes version ++ (d.read q.ackFile).drop 8)
    { q with lastAck := version }.prune d'

/-- Lets go of the segments. Nothing can be put from then on. -/
def close (d : Disk) (q : Queue) : Disk × Queue :=
  match q.flush d with
  | (d', q') => (d', { q' with writer := none, reader := none })

/-- Removes the queue with its folder if it is empty, and tells whether it did. -/
def removeIfEmpty (d : Disk) (q : Queue) : Outcome Bool :=
  if q.isEmpty then
    match q.close d with
    | (d₁, q₁) =>
      match d₁.removeAll? q.folder with
      | none => ⟨d₁, q₁, .error .deleteFolder⟩
      | some d₂ => ⟨d₂, { q₁ with segments := [] }, .ok true⟩
  else ⟨d, q, .ok false⟩

/-- Drops an open queue: what was written reaches the disk. -/
def drop (d : Disk) (q : Queue) : Disk :=
  (q.flush d).1

end Queue

end Outbox

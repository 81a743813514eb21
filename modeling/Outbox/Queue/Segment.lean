import Outbox.Disk.Tree
import Outbox.Queue.Record
import Outbox.Queue.Window

/-!
# Segments

The records of a queue are spread over segment files. A segment is known by the version of the first
record that was written to it, and that version is in its name.

* `segmentName` and `segmentId?` convert between versions and file names; a name may also have a plus
  sign or zeros in front of the digits;
* `SegmentWriter` appends frames to a file, through a buffer;
* `SegmentReader` reads the frames of a file one by one;
* `scanSegment` finds the end of the good frames at the head of a file.
-/

namespace Outbox

/-- Why an operation on a queue failed. Files are named by their name in the queue's folder. -/
inductive QueueError where
  | createFolder
  | openSegment (file : String)
  /-- A folder lies where a segment should. -/
  | readSegment (file : String)
  | deleteSegment (file : String)
  | deleteFolder
  | ackFile
  /-- A frame that is damaged, by the offset of its first byte. -/
  | badFrame (file : String) (offset : Nat) (reason : FrameError)
  /-- A frame whose payload is not a record, by the offset of its first byte. -/
  | undecodable (file : String) (offset : Nat)
  | closed
deriving DecidableEq

/-! ### Names -/

/-- The name of the segment that begins with a version. -/
def segmentName (id : Nat) : String :=
  "data-" ++ String.ofList (Decimal.write id) ++ ".log"

/-- The version in the name of a segment; none for other names. -/
def segmentId? (name : String) : Option Nat :=
  match name.toList with
  | 'd' :: 'a' :: 't' :: 'a' :: '-' :: rest =>
    match rest.reverse with
    | 'g' :: 'o' :: 'l' :: '.' :: digits => Decimal.readBelow? UInt64.size digits.reverse
    | _ => none
  | _ => none

/-! ### Writing -/

/-- The number of bytes that a writer holds back at most. -/
def bufferSize : Nat := 8192

/-- Appends frames to a segment. -/
structure SegmentWriter where
  id : Nat
  file : Nat
  /-- What was not handed to the disk yet. -/
  buffer : List UInt8
  /-- The length of the segment, the buffer included. -/
  size : Nat
deriving DecidableEq

namespace SegmentWriter

/-- Opens a segment for appending, and cuts it to a length. -/
def openAt (d : Disk) (folder : Place) (id length : Nat) :
    Disk × Except QueueError SegmentWriter :=
  match d.create? (folder ++ [segmentName id]) with
  | none => (d, .error (.openSegment (segmentName id)))
  | some (d', file) => (d'.update file ((d'.read file).take length), .ok ⟨id, file, [], length⟩)

/-- Hands the buffer to the disk, if there is something in it. -/
def flush (d : Disk) (w : SegmentWriter) : Disk × SegmentWriter :=
  if w.buffer.isEmpty then (d, w) else (d.append w.file w.buffer, { w with buffer := [] })

/-- Hands the buffer to the disk if so many bytes more do not fit. -/
def makeRoom (d : Disk) (w : SegmentWriter) (n : Nat) : Disk × SegmentWriter :=
  if bufferSize < w.buffer.length + n then w.flush d else (d, w)

/-- Writes some bytes, through the buffer unless they are too many for it. -/
def write (d : Disk) (w : SegmentWriter) (bytes : List UInt8) : Disk × SegmentWriter :=
  match w.makeRoom d bytes.length with
  | (d', w') =>
    if bufferSize ≤ bytes.length then (d'.append w'.file bytes, w')
    else (d', { w' with buffer := w'.buffer ++ bytes })

/-- Writes pieces in turn. -/
def writeAll (d : Disk) (w : SegmentWriter) : List (List UInt8) → Disk × SegmentWriter
  | [] => (d, w)
  | piece :: rest =>
    match w.write d piece with
    | (d', w') => w'.writeAll d' rest

/-- Appends the frame of a payload. -/
def put (d : Disk) (w : SegmentWriter) (payload : List UInt8) :
    Disk × SegmentWriter × Except QueueError Unit :=
  if payload.length < UInt32.size then
    match w.writeAll d (Frame.parts payload) with
    | (d', w') => (d', { w' with size := w.size + Frame.size payload }, .ok ())
  else (d, w, .error (.badFrame (segmentName w.id) w.size (.tooLarge payload.length)))

end SegmentWriter

/-! ### Reading -/

/-- Reads the frames of a segment. -/
structure SegmentReader where
  id : Nat
  /-- The file; none if it is a folder that was opened. -/
  file : Option Nat
  /-- The number of bytes fetched from the file. -/
  position : Nat
  /-- What was fetched and not used up. -/
  fetched : List UInt8
  /-- The total length of the frames that were read. -/
  offset : Nat
deriving DecidableEq

/-- What a reader came to. -/
inductive Reached (α : Type) where
  | record (r : Record α) (size : Nat)
  | finished
  | failed (e : QueueError)

namespace SegmentReader

/-- Opens a segment for reading. A folder of its name can be opened as well, but not read. -/
def openAt (d : Disk) (folder : Place) (id : Nat) : Except QueueError SegmentReader :=
  match d.lookup? (folder ++ [segmentName id]) with
  | some (.file file) => .ok ⟨id, some file, 0, [], 0⟩
  | some .folder => .ok ⟨id, none, 0, [], 0⟩
  | none => .error (.openSegment (segmentName id))

/-- The bytes ahead of a reader in its file. -/
def window (d : Disk) (r : SegmentReader) (file : Nat) : Window :=
  ⟨r.fetched, (d.read file).drop r.position, r.position⟩

/-- The reader with a window ahead of it, after it has read so many bytes more in frames. -/
def advance (r : SegmentReader) (w : Window) (size : Nat) : SegmentReader :=
  ⟨r.id, r.file, w.position, w.fetched, r.offset + size⟩

variable {α : Type} [Storable α]

/-- The first record above a version in the bytes ahead of a reader. -/
def seekIn (r : SegmentReader) (above : Nat) (w : Window) : SegmentReader × Reached α :=
  let w' := w.skipFrame
  match _h : Frame.next w.bytes with
  | (.finished, _) => (r.advance w' 0, .finished)
  | (.broken e, _) =>
    (r.advance w' 0, .failed (.badFrame (segmentName r.id) r.offset e))
  | (.payload payload, _) =>
    let size := Frame.size payload
    let r' := r.advance w' size
    match Record.parse? payload with
    | none => (r', .failed (.undecodable (segmentName r.id) r.offset))
    | some record =>
      if record.version ≤ above then r'.seekIn above w' else (r', .record record size)
termination_by w.bytes.length
decreasing_by
  rw [Window.bytes_skipFrame, _h]
  exact Frame.length_lt_of_next _h

/-- The first record above a version ahead of a reader. -/
def seek (d : Disk) (r : SegmentReader) (above : Nat) : SegmentReader × Reached α :=
  match r.file with
  | some file => r.seekIn above (r.window d file)
  | none => (r, .failed (.readSegment (segmentName r.id)))

end SegmentReader

/-! ### Recovery -/

/-- The good frames at the head of a segment. -/
structure Scan where
  length : Nat
  lastVersion : Option Nat
deriving DecidableEq

/-- Goes on over the frames whose payload has a version. -/
def Scan.over (s : Scan) (bytes : List UInt8) : Scan :=
  match _h : Frame.next bytes with
  | (.payload payload, rest) =>
    match Record.version? payload with
    | some version => Scan.over ⟨s.length + Frame.size payload, some version⟩ rest
    | none => s
  | _ => s
termination_by bytes.length
decreasing_by exact Frame.length_lt_of_next _h

/-- The good frames at the head of some bytes. -/
def scanSegment (bytes : List UInt8) : Scan :=
  Scan.over ⟨0, none⟩ bytes

end Outbox

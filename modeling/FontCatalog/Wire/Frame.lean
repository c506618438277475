import FontCatalog.Text.Utf8
import FontCatalog.Wire.Error

/-! Frames: the length of a payload in four bytes, the least significant first, and the payload. One
reader waits for all bytes it needs, the other takes what each chunk brings. -/
namespace FontCatalog.Wire
set_option autoImplicit false

/-- The longest payload unless another limit is set. -/
def defaultMaxFrame : Nat := 4 * 1024 * 1024

/-! ## Writing -/

/-- The longest payload whose length fits its four bytes. -/
def maxLength : Nat := 0xFFFFFFFF

def encodeLength (n : Nat) : Bytes :=
  [n.toUInt8, (n / 0x100).toUInt8, (n / 0x10000).toUInt8, (n / 0x1000000).toUInt8]

def writeFrame (payload : Bytes) : Except Error Bytes :=
  if payload.length ≤ maxLength then .ok (encodeLength payload.length ++ payload)
  else .error (.frameTooLarge payload.length maxLength)

/-! ## Reading from one stretch of bytes -/

def decodeLength (header : Bytes) : Nat :=
  header.foldr (fun b n => b.toNat + 256 * n) 0

/-- Whether there are at least `n` bytes. -/
def hasAtLeast : Nat → Bytes → Bool
  | 0, _ => true
  | _ + 1, [] => false
  | n + 1, _ :: rest => hasAtLeast n rest

/-- The payload of the next frame and what follows. -/
def readFrame (max : Nat) (bs : Bytes) : Except Error (Bytes × Bytes) :=
  if !hasAtLeast 4 bs then .error (.cut .buffer)
  else
    let length := decodeLength (bs.take 4)
    let rest := bs.drop 4
    if max < length then .error (.frameTooLarge length max)
    else if !hasAtLeast length rest then .error (.cut .buffer)
    else .ok (rest.take length, rest.drop length)

/-- The payloads up to the first failure, which ends the reading. -/
def readFrames (max : Nat) : Nat → Bytes → List Bytes × Error
  | 0, _ => ([], .cut .buffer)
  | fuel + 1, bs =>
    match readFrame max bs with
    | .error e => ([], e)
    | .ok (payload, rest) =>
      let (payloads, e) := readFrames max fuel rest
      (payload :: payloads, e)

/-- The payloads of `bs` and the failure after them; every frame takes four bytes at least. -/
def allFrames (max : Nat) (bs : Bytes) : List Bytes × Error := readFrames max (bs.length + 1) bs

/-! ## Reading from chunks -/

/-- One read of at most `n` bytes: what the next chunk that is not empty gives. No bytes mean that
the input has ended. -/
def pull (n : Nat) : List Bytes → Bytes × List Bytes
  | [] => ([], [])
  | [] :: chunks => pull n chunks
  | (b :: chunk) :: chunks => ((b :: chunk).take n, (b :: chunk).drop n :: chunks)

/-- Reads until `n` bytes more have come or the input has ended; `acc` holds the bytes so far. -/
def fill : Nat → Nat → Bytes → List Bytes → Bytes × List Bytes
  | 0, _, acc, chunks => (acc, chunks)
  | fuel + 1, n, acc, chunks =>
    if n = 0 then (acc, chunks)
    else
      match pull n chunks with
      | ([], chunks) => (acc, chunks)
      | (got, chunks) => fill fuel (n - got.length) (acc ++ got) chunks

/-- The payload of the next frame, none at the end between frames. -/
def receiveFrame (max : Nat) (chunks : List Bytes) :
    Except Error (Option (Bytes × List Bytes)) :=
  let (header, chunks) := fill 4 4 [] chunks
  if header.isEmpty then .ok none
  else if header.length < 4 then .error (.cut .header)
  else
    let length := decodeLength header
    if max < length then .error (.frameTooLarge length max)
    else
      let (payload, chunks) := fill length length [] chunks
      if payload.length < length then .error (.cut .payload) else .ok (some (payload, chunks))

/-- The payloads up to the end or the first failure. -/
def receiveFrames (max : Nat) : Nat → List Bytes → List Bytes × Option Error
  | 0, _ => ([], none)
  | fuel + 1, chunks =>
    match receiveFrame max chunks with
    | .error e => ([], some e)
    | .ok none => ([], none)
    | .ok (some (payload, chunks)) =>
      let (payloads, e) := receiveFrames max fuel chunks
      (payload :: payloads, e)

def allReceived (max : Nat) (chunks : List Bytes) : List Bytes × Option Error :=
  receiveFrames max (chunks.flatten.length + 1) chunks

end FontCatalog.Wire

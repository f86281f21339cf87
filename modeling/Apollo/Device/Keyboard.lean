import Mathlib
import Apollo.Lib.CircularQueue
import Apollo.Time.Clock

/-!
# The keyboard's code tables

The two columns of the `ASCII` table of `src/core/device/ap_kbd.c` and the `PROM` table that
`ap_kbd_encode` searches for the code of a character.
-/

namespace Apollo.Device

/-- A row of `ASCII`: the key's code unshifted and shifted. -/
structure AsciiKey where
  unshifted : BitVec 16
  shifted : BitVec 16

/-- `ASCII`. -/
def asciiKeys : List AsciiKey :=
  ([(0x81, 0x91), (0x82, 0x92), (0x83, 0x93), (0x1C, 0x5C), (0xC0, 0xD0), (0xC1, 0xD1),
    (0xC2, 0xD2), (0xC3, 0xD3), (0xC4, 0xD4), (0xC5, 0xD5), (0xC6, 0xD6), (0xC7, 0xD7),
    (0x1F, 0x2F), (0xCD, 0xE9), (0xCE, 0xEA), (0xCF, 0xEB), (0xDD, 0xEC), (0xB3, 0xB7),
    (0xB0, 0xB4), (0xB1, 0xB5), (0xB2, 0xB6), (0x1B, 0x1B), (0x31, 0x21), (0x32, 0x40),
    (0x33, 0x23), (0x34, 0x24), (0x35, 0x25), (0x36, 0x5E), (0x37, 0x26), (0x38, 0x2A),
    (0x39, 0x28), (0x30, 0x29), (0x2D, 0x5F), (0x3D, 0x2B), (0x60, 0x7E), (0xDE, 0xDE),
    (0x84, 0x94), (0x85, 0x95), (0x86, 0x96), (0xCA, 0xDA), (0x71, 0x51), (0x77, 0x57),
    (0x65, 0x45), (0x72, 0x52), (0x74, 0x54), (0x79, 0x59), (0x75, 0x55), (0x69, 0x49),
    (0x6F, 0x4F), (0x70, 0x50), (0x7B, 0x5B), (0x7D, 0x5D), (0x7F, 0x7F), (0xFE37, 0xFE26),
    (0xFE38, 0xFE2A), (0xFE39, 0xFE28), (0xFE2B, 0xFE3D), (0x87, 0x97), (0x88, 0x98), (0x89, 0x99),
    (0x61, 0x41), (0x73, 0x53), (0x64, 0x44), (0x66, 0x46), (0x67, 0x47), (0x68, 0x48),
    (0x6A, 0x4A), (0x6B, 0x4B), (0x6C, 0x4C), (0x3B, 0x3A), (0x27, 0x22), (0xCB, 0xDB),
    (0xC8, 0xC9), (0xFE34, 0xFE24), (0xFE35, 0xFE25), (0xFE36, 0xFE5E), (0xFE2D, 0xFE5F),
    (0x8A, 0x9A), (0x8B, 0x9B), (0x8C, 0x9C), (0x7A, 0x5A), (0x78, 0x58), (0x63, 0x43),
    (0x76, 0x56), (0x62, 0x42), (0x6E, 0x4E), (0x6D, 0x4D), (0x2C, 0x3C), (0x2E, 0x3E),
    (0xCC, 0xDC), (0x80, 0x90), (0xFE31, 0xFE21), (0xFE32, 0xFE40), (0xFE33, 0xFE23), (0x8D, 0x9D),
    (0x8E, 0x9E), (0x8F, 0x9F), (0x20, 0x20), (0xFE30, 0xFE29), (0xFE2E, 0xFE2E), (0xFECB, 0xFEDB)]
    : List (BitVec 16 × BitVec 16)).map fun (unshifted, shifted) => ⟨unshifted, shifted⟩

/-- `PROM`: a code, and what the firmware makes of it. -/
def promCodes : List (BitVec 8 × BitVec 8) :=
  [(0xCB, 0x0D), (0xDB, 0x0D), (0xFB, 0x1B), (0xC8, 0x5C), (0xD8, 0x5C), (0xF8, 0x5C),
   (0xC9, 0x7C), (0xD9, 0x7C), (0xF9, 0x7F), (0x5B, 0x7B), (0x7B, 0x5B), (0x5D, 0x7D),
   (0x7D, 0x5D), (0xCA, 0x09), (0xDA, 0x09), (0xFA, 0x09), (0xCC, 0x2F), (0xDC, 0x3F),
   (0xFC, 0x3F), (0xDE, 0x08)]

/-- The search of one `PROM` code through the table. -/
def encodeTranslated (code : BitVec 8) : List AsciiKey → Option (BitVec 16 × Bool)
  | [] => none
  | key :: rest =>
    if key.unshifted = code.setWidth 16 then some (code.setWidth 16, false)
    else if key.shifted = code.setWidth 16 then some (code.setWidth 16, true)
    else encodeTranslated code rest

/-- `ap_kbd_encode`: the code of a character, and whether it is shifted. -/
def encode (ascii : BitVec 8) : Option (BitVec 16 × Bool) :=
  let translated := promCodes.findSome? fun (code, want) =>
    if want = ascii then encodeTranslated code asciiKeys else none
  match translated with
  | some found => some found
  | none =>
    if asciiKeys.any fun key => key.unshifted == ascii.setWidth 16 then
      some (ascii.setWidth 16, false)
    else if asciiKeys.any fun key => key.shifted == ascii.setWidth 16 then
      some (ascii.setWidth 16, true)
    else none

/-!
## The keyboard

`src/core/device/ap_kbd.c`: a matrix of keys that reports transitions, a command channel, and one
transmitter for both. Its queue has room for sixteen bytes of the keys and for two replies, and
each byte carries which of the two it is.
-/

open Lib

/-- `AP_KBD_KEYS`; also the value of `held` when no key is. -/
def keyCount : Nat := 128

/-- `AP_KBD_BUFFER`. -/
def keyLimit : Nat := 16

/-- `AP_KBD_REPLY_MAX`. -/
def replyMax : Nat := 32

/-- `AP_KBD_REPLY_QUEUE`. -/
def replyLimit : Nat := 64

/-- `AP_KBD_TX_CHARACTER`. -/
def txCharacter : Time := timeBaseHz * 11 / 1200

/-- `AP_KBD_REPEAT_DELAY`. -/
def repeatDelay : Time := timeBaseHz / 2

/-- `AP_KBD_REPEAT_PERIOD`. -/
def repeatPeriod : Time := timeBaseHz * 33 / 1000

/-- `AP_KBD_BEEPER_DURATION`. -/
def beeperDuration : Time := timeBaseHz * 300 / 1000

/-- `AP_KBD_IDENTIFICATION`. -/
def identification : List (BitVec 8) :=
  [0x33, 0x2D, 0x40, 0x0D, 0x32, 0x2D, 0x30, 0x0D, 0x53, 0x44, 0x2D, 0x30, 0x33, 0x38, 0x36, 0x33,
    0x2D, 0x4D, 0x53, 0x0D]

/-- `ap_kbd_t`. The queue is the ring of `buffer` and `from_reply`, which are filled and emptied in
step; its count is `buffered`. -/
structure Keyboard where
  down : Fin keyCount → Bool
  held : Nat
  now : Time
  repeatAt : Time
  repeating : Bool
  queue : CircularQueue (BitVec 8 × Bool) 80
  keyBuffered : Nat
  txAt : Time
  replyBuffered : Nat
  loopback : Bool
  rxMessage : BitVec 32
  keystateMode : Bool
  beeperUntil : Time
  capsLockLed : Bool

namespace Keyboard

/-- `ap_kbd_reset`. -/
def reset : Keyboard :=
  { down := fun _ => false, held := keyCount, now := 0, repeatAt := 0, repeating := false
    queue := ⟨fun _ => (0, false), 0, 0⟩, keyBuffered := 0, txAt := 0, replyBuffered := 0
    loopback := true, rxMessage := 0, keystateMode := false, beeperUntil := 0
    capsLockLed := false }

/-- `ap_kbd_press`: the code, unless the key is none or down already. -/
def press (kbd : Keyboard) (key : Nat) : Option (BitVec 8 × Keyboard) :=
  if h : key < keyCount then
    if kbd.down ⟨key, h⟩ then none
    else some (BitVec.ofNat 8 key,
      { kbd with
        down := Function.update kbd.down ⟨key, h⟩ true
        held := key
        repeatAt := kbd.now + repeatDelay
        repeating := false
        capsLockLed := if key = 0x7E then true else kbd.capsLockLed })
  else none

/-- `ap_kbd_release`: the code, unless the key is none or not down. -/
def release (kbd : Keyboard) (key : Nat) : Option (BitVec 8 × Keyboard) :=
  if h : key < keyCount then
    if kbd.down ⟨key, h⟩ then
      some (BitVec.ofNat 8 key ||| 0x80,
        { kbd with
          down := Function.update kbd.down ⟨key, h⟩ false
          capsLockLed := if key = 0x7E then false else kbd.capsLockLed
          held := if kbd.held = key then keyCount else kbd.held
          repeating := if kbd.held = key then false else kbd.repeating })
    else none
  else none

/-- `ap_kbd_buffer_full`. -/
def bufferFull (kbd : Keyboard) : Bool := keyLimit ≤ kbd.keyBuffered

/-- `ap_kbd_buffer`: whether the byte was taken. -/
def buffer (kbd : Keyboard) (code : BitVec 8) : Bool × Keyboard :=
  if kbd.bufferFull then (false, kbd)
  else (true,
    { kbd with
      txAt := if kbd.queue.count = 0 then kbd.now + txCharacter else kbd.txAt
      queue := kbd.queue.push (code, false)
      keyBuffered := kbd.keyBuffered + 1 })

/-- `ap_kbd_queue_reply`: how many of the bytes were taken. -/
def queueReply (kbd : Keyboard) (bytes : List (BitVec 8)) : Nat × Keyboard :=
  let room := replyLimit - kbd.replyBuffered
  let take := if bytes.length < room then bytes.length else room
  (take,
    { kbd with
      txAt := if 0 < take ∧ kbd.queue.count = 0 then kbd.now + txCharacter else kbd.txAt
      queue := (bytes.take take).foldl (fun queue byte => queue.push (byte, true)) kbd.queue
      replyBuffered := kbd.replyBuffered + take })

/-- `ap_kbd_transmit`: the byte at the front, if there is one and its character is over. -/
def transmit (kbd : Keyboard) (now : Time) : Option (BitVec 8 × Keyboard) :=
  if kbd.queue.count = 0 ∨ now < kbd.txAt then none
  else
    let (code, fromReply) := kbd.queue.front
    some (code,
      { kbd with
        replyBuffered := if fromReply then kbd.replyBuffered - 1 else kbd.replyBuffered
        keyBuffered := if fromReply then kbd.keyBuffered else kbd.keyBuffered - 1
        queue := kbd.queue.pop
        txAt := kbd.txAt + txCharacter })

/-- `ap_kbd_advance`: the key whose repeat is due. -/
def advance (kbd : Keyboard) (now : Time) : Option Nat × Keyboard :=
  let kbd := if kbd.now < now then { kbd with now := now } else kbd
  if keyCount ≤ kbd.held ∨ kbd.now < kbd.repeatAt then (none, kbd)
  else (some kbd.held, { kbd with repeatAt := kbd.repeatAt + repeatPeriod, repeating := true })

/-- `announce_mode`. -/
def announceMode (kbd : Keyboard) : List (BitVec 8) := [0xFF, if kbd.keystateMode then 1 else 0]

/-- What `ap_kbd_receive` does with the message that a byte completes or carries on. -/
def command (kbd : Keyboard) (byte : BitVec 8) : List (BitVec 8) × Keyboard :=
  let message := kbd.rxMessage <<< 8 ||| byte.setWidth 32
  let kbd := { kbd with rxMessage := message }
  if message = 0xFF00 then
    ([byte], { kbd with keystateMode := false, loopback := false, rxMessage := 0 })
  else if message = 0xFF01 then ([byte], { kbd with keystateMode := true, rxMessage := 0 })
  else if message = 0xFF11 ∨ message = 0xFF12 then ([byte], kbd)
  else if message = 0xFF1116 then ([0, 0xFF, 0], { kbd with loopback := false, rxMessage := 0 })
  else if message = 0xFF1117 then ([], { kbd with rxMessage := 0 })
  else if message = 0xFF1221 then
    (byte :: identification ++ kbd.announceMode, { kbd with loopback := false, rxMessage := 0 })
  else if message = 0xFF2181 then
    ([byte], { kbd with beeperUntil := kbd.now + beeperDuration, rxMessage := 0 })
  else if message = 0xFF2182 then ([byte], { kbd with beeperUntil := 0, rxMessage := 0 })
  else if kbd.loopback then ([byte], kbd)
  else ([], kbd)

/-- `ap_kbd_receive`: what the keyboard answers a byte of the host, as much of it as the caller has
room for. -/
def receive (kbd : Keyboard) (byte : BitVec 8) (capacity : Nat) : List (BitVec 8) × Keyboard :=
  let (reply, kbd) :=
    if byte = 0xFF then ([byte], { kbd with rxMessage := 0xFF, loopback := true })
    else if byte = 0 then
      if kbd.loopback then
        let kbd := { kbd with keystateMode := false, loopback := false }
        (kbd.announceMode, kbd)
      else ([], kbd)
    else kbd.command byte
  (reply.take capacity, kbd)

/-- A movement as the packet has it, clamped to a signed byte. -/
def clampMovement (d : Int) : BitVec 8 :=
  BitVec.ofInt 8 (if 127 < d then 127 else if d < -128 then -128 else d)

/-- `ap_kbd_mouse_packet`. -/
def mousePacket (kbd : Keyboard) (dx dy : Int) (left middle right : Bool) : List (BitVec 8) :=
  let b1 := 0x80#8 ||| (if left then 0 else 0x10) ||| (if middle then 0 else 0x40) |||
    (if right then 0 else 0x20)
  (if kbd.keystateMode then [] else [0xDF]) ++ [b1, clampMovement dx, clampMovement dy]

/-- `ap_kbd_mouse_packet_absolute`. -/
def mousePacketAbsolute (kbd : Keyboard) (x y : BitVec 32) (left middle right : Bool) :
    List (BitVec 8) :=
  let x := if 0xFFF < x then 0xFFF else x
  let y := if 0xFFF < y then 0xFFF else y
  let b1 := 0x80#8 ||| (if middle then 0x40 else 0) ||| (if right then 0x20 else 0) |||
    (if left then 0x10 else 0)
  [if kbd.keystateMode then b1 else 0xE8, x.setWidth 8,
    ((y &&& 0xF) <<< 4 ||| (x >>> 8 &&& 0xF)).setWidth 8, (y >>> 4 &&& 0xFF).setWidth 8]

end Keyboard

end Apollo.Device

import Apollo.Lib.Sizes
import Mathlib

/-!
# What the board is fitted with, and the address translation map of the AT bus

The display that is fitted, and `src/core/board/ap_atmap.c`: sixteen-bit entries, each the number of
a page of 1 KB, that a DMA or a bus master's address selects by its width; and `dma_physical` of
`ap_board.c`, by which a channel of the second controller has a word address.
-/

namespace Apollo.Board

/-- `ap_screen_kind_t`. -/
inductive ScreenKind
  | none
  | colour4Plane
  | mono19Inch
  | colour8Plane
  | mono15Inch
deriving DecidableEq

/-- `ap_graphics_is_colour`. -/
def ScreenKind.isColour (screen : ScreenKind) : Bool :=
  screen = .colour4Plane || screen = .colour8Plane

/-- `ap_atmap_transfer_t`. -/
inductive AtTransfer
  | eight
  | sixteen
  | busMaster
deriving DecidableEq

/-- `ap_atmap_t`: the entries, of which a machine may have fewer. -/
structure AtMap where
  entry : Fin 2048 → BitVec 16

namespace AtMap

/-- `ap_atmap_reachable_entries`. -/
def reachableEntries : AtTransfer → Nat
  | .eight => 64
  | .sixteen => 128
  | .busMaster => 512

/-- `ap_atmap_index`. -/
def index (dmaAddress : BitVec 32) (transfer : AtTransfer) : Fin 2048 :=
  let raw := dmaAddress.toNat / 1024
  match transfer with
  | .busMaster => Fin.ofNat 2048 (raw % reachableEntries .busMaster)
  | _ => Fin.ofNat 2048 ((512 + raw % reachableEntries transfer) % 1024)

/-- `ap_atmap_offset`. -/
def offset (dmaAddress : BitVec 32) : AtTransfer → BitVec 32
  | .sixteen => dmaAddress &&& 0x3FE
  | _ => dmaAddress &&& 0x3FF

/-- `ap_atmap_translate`: a page number and an offset, of 26 bits. -/
def translate (map : AtMap) (dmaAddress : BitVec 32) (transfer : AtTransfer) : BitVec 32 :=
  ((map.entry (index dmaAddress transfer)).setWidth 32 <<< 10 ||| offset dmaAddress transfer) &&&
    0x03FFFFFF

/-- `dma_physical`: the address of a controller's channel, which is a word's on the second. -/
def dmaPhysical (map : AtMap) (unit : Fin 2) (dmaAddress : BitVec 16) : BitVec 32 :=
  if unit = 1 then map.translate (dmaAddress.setWidth 32 <<< 1) .sixteen
  else map.translate (dmaAddress.setWidth 32) .eight

end AtMap

end Apollo.Board

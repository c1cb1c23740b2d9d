import VirtualSoC.Cpu.Rv32Defs
import VirtualSoC.Lib.FileStream
import VirtualSoC.Lib.Machine

/-!
# The SD card

`SDCardModel` of `sd/sd_card_model.h` and `sd/sd_card_model.cpp`: a card whose blocks are in an
image file of the host.
-/

namespace VirtualSoC

/-- `BLOCK_SIZE`. -/
abbrev sdBlockSize : ℕ := 512

/-- A buffer of one block. -/
abbrev SdBlock := Vector Byte sdBlockSize

/-- The card: the stream of its image. -/
structure SDCardModel where
  file : IFStream Byte := {}

namespace SDCardModel

variable (card : SDCardModel)

/-- `SDCardModel::open`. -/
def openFile (content : Option (Array Byte)) : Bool × SDCardModel :=
  let file := card.file.openFile content
  (file.isOpen, { file })

/-- `read_block`: whether it succeeded, the caller's buffer, and the card. -/
def readBlock (blockAddr : Word) (buf : SdBlock) : Bool × SdBlock × SDCardModel :=
  if !card.file.isOpen then (false, buf, card)
  else
    let file := card.file.seekg (blockAddr.toNat * sdBlockSize)
    if file.failbit then (false, buf, { file })
    else
      let (buf, file) := file.read buf
      (file.gcount = sdBlockSize, buf, { file })

/-- A card with the image `image` inserted. -/
def opened (image : Array Byte) : SDCardModel := (({} : SDCardModel).openFile (some image)).2

/-- The card as its users call it. -/
def machine : Machine SDCardModel (Word × SdBlock) (Bool × SdBlock) where
  step card call :=
    let (ok, buf, card) := card.readBlock call.1 call.2
    (card, ok, buf)

end SDCardModel

end VirtualSoC

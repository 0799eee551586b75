/-
Disks and the transfers between a disk and a buffer.

A driver gives the two functions of a disk, and what they do inside the medium:
a read copies the addressed bytes into the buffer, a write copies the buffer
over them.  Commands have 32-bit addresses and sizes, and the type of a disk
decides which transfers reach its driver.
-/

import DoggOS.Library.Words

namespace DoggOS.Dev

/-- `enum K_DEV_DSK_TYPES` -/
inductive DiskType where
  | ram
  | disk
  | usb
  | cdrom
  | boot
  | last
deriving DecidableEq, Repr

/-- `enum K_DEV_DSK_CMD_TYPES` -/
inductive DiskCmdType where
  | read
  | write
  | clear
  | identify
  | last
deriving DecidableEq, Repr

/-- The function pointers `read` and `write` of a disk, over a medium of `capacity` bytes. -/
structure DiskDriver (Medium : Type*) where
  content : Medium → Bytes
  capacity : Nat
  read : Medium → Nat → Nat → Bytes → Bytes
  write : Medium → Nat → Nat → Bytes → Medium
  read_eq : ∀ medium address size buffer, address + size ≤ capacity →
    read medium address size buffer =
      fillBytes buffer 0 size (fun place => content medium (address + place))
  content_write : ∀ medium address size buffer, address + size ≤ capacity →
    content (write medium address size buffer) = fillBytes (content medium) address size buffer

/-- `struct k_dev_disk_t` -/
structure Disk (Medium : Type*) where
  driver : DiskDriver Medium
  blockSize : Nat
  type : DiskType

namespace Disk

variable {Medium : Type*}

/-- `k_dev_DiskRead` -/
def read (disk : Disk Medium) (medium : Medium) (start count : Nat) (data : Bytes) : Bytes :=
  match disk.type with
  | .ram | .boot | .disk => disk.driver.read medium (start % 2 ^ 32) (count % 2 ^ 32) data
  | .usb | .cdrom | .last => data

/-- `k_dev_DiskWrite`; the boot disk is only read. -/
def write (disk : Disk Medium) (medium : Medium) (start count : Nat) (data : Bytes) : Medium :=
  match disk.type with
  | .ram | .disk => disk.driver.write medium (start % 2 ^ 32) (count % 2 ^ 32) data
  | .boot | .usb | .cdrom | .last => medium

def Readable (disk : Disk Medium) : Prop :=
  disk.type = .ram ∨ disk.type = .boot ∨ disk.type = .disk

def Writable (disk : Disk Medium) : Prop :=
  disk.type = .ram ∨ disk.type = .disk

variable {disk : Disk Medium}

theorem Writable.readable (writable : disk.Writable) : disk.Readable := by
  rcases writable with ram | isDisk
  · exact Or.inl ram
  · exact Or.inr (Or.inr isDisk)

theorem read_spec (readable : disk.Readable) (medium : Medium) {start count : Nat} (data : Bytes)
    (inside : start % 2 ^ 32 + count % 2 ^ 32 ≤ disk.driver.capacity) :
    disk.read medium start count data = fillBytes data 0 (count % 2 ^ 32)
      (fun place => disk.driver.content medium (start % 2 ^ 32 + place)) := by
  rw [← disk.driver.read_eq medium _ _ data inside]
  unfold read
  rcases readable with type | type | type
  · rw [type]
  · rw [type]
  · rw [type]

theorem write_spec (writable : disk.Writable) (medium : Medium) {start count : Nat} (data : Bytes)
    (inside : start % 2 ^ 32 + count % 2 ^ 32 ≤ disk.driver.capacity) :
    disk.driver.content (disk.write medium start count data) =
      fillBytes (disk.driver.content medium) (start % 2 ^ 32) (count % 2 ^ 32) data := by
  rw [← disk.driver.content_write medium _ _ data inside]
  unfold write
  rcases writable with type | type
  · rw [type]
  · rw [type]

end Disk

def ramDriver (capacity : Nat) : DiskDriver Bytes where
  content medium := medium
  capacity := capacity
  read medium address size buffer :=
    fillBytes buffer 0 size (fun place => medium (address + place))
  write medium address size buffer := fillBytes medium address size buffer
  read_eq _ _ _ _ _ := rfl
  content_write _ _ _ _ _ := rfl

end DoggOS.Dev

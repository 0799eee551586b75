/-
The commands that disk transfers are turned into.

A read, a write or a clear gives its driver at most one command, with an address
and a size of 32 bits.  The commands say which bytes of the disk a call asks for,
apart from what the driver does with them.
-/

import DoggOS.Dev.Disk

namespace DoggOS.Dev

/-- `struct k_dev_dsk_cmd_t` -/
structure DiskCmd where
  type : DiskCmdType
  address : Nat
  size : Nat
deriving DecidableEq, Repr

def DiskCmd.Inside (cmd : DiskCmd) (start stop : Nat) : Prop :=
  start ≤ cmd.address ∧ cmd.address + cmd.size ≤ stop

instance (cmd : DiskCmd) (start stop : Nat) : Decidable (cmd.Inside start stop) :=
  inferInstanceAs (Decidable (_ ∧ _))

namespace Disk

variable {Medium : Type*} (disk : Disk Medium)

/-- The command of `k_dev_DiskRead`. -/
def readCmds (start count : Nat) : List DiskCmd :=
  match disk.type with
  | .ram | .boot | .disk => [⟨.read, start % 2 ^ 32, count % 2 ^ 32⟩]
  | .usb | .cdrom | .last => []

/-- The command of `k_dev_DiskWrite`. -/
def writeCmds (start count : Nat) : List DiskCmd :=
  match disk.type with
  | .ram | .disk => [⟨.write, start % 2 ^ 32, count % 2 ^ 32⟩]
  | .boot | .usb | .cdrom | .last => []

/-- The command of `k_dev_DiskClear`. -/
def clearCmds (start count : Nat) : List DiskCmd :=
  match disk.type with
  | .ram | .disk => [⟨.clear, start % 2 ^ 32, count % 2 ^ 32⟩]
  | .boot | .usb | .cdrom | .last => []

theorem read_eq_cmds (medium : Medium) (start count : Nat) (data : Bytes) :
    disk.read medium start count data = (disk.readCmds start count).foldl
      (fun data cmd => disk.driver.read medium cmd.address cmd.size data) data := by
  unfold read readCmds
  cases disk.type with
  | ram | boot | disk => rfl
  | usb | cdrom | last => rfl

theorem write_eq_cmds (medium : Medium) (start count : Nat) (data : Bytes) :
    disk.write medium start count data = (disk.writeCmds start count).foldl
      (fun medium cmd => disk.driver.write medium cmd.address cmd.size data) medium := by
  unfold write writeCmds
  cases disk.type with
  | ram | disk => rfl
  | boot | usb | cdrom | last => rfl

variable {disk}

theorem Readable.readCmds_eq (readable : disk.Readable) (start count : Nat) :
    disk.readCmds start count = [⟨.read, start % 2 ^ 32, count % 2 ^ 32⟩] := by
  unfold readCmds
  rcases readable with type | type | type
  · rw [type]
  · rw [type]
  · rw [type]

theorem mem_writeCmds {start count : Nat} {cmd : DiskCmd}
    (member : cmd ∈ disk.writeCmds start count) :
    cmd = ⟨.write, start % 2 ^ 32, count % 2 ^ 32⟩ := by
  unfold writeCmds at member
  split at member
  · exact List.mem_singleton.mp member
  · exact List.mem_singleton.mp member
  all_goals cases member

theorem mem_readCmds {start count : Nat} {cmd : DiskCmd}
    (member : cmd ∈ disk.readCmds start count) :
    cmd = ⟨.read, start % 2 ^ 32, count % 2 ^ 32⟩ := by
  unfold readCmds at member
  split at member
  · exact List.mem_singleton.mp member
  · exact List.mem_singleton.mp member
  · exact List.mem_singleton.mp member
  all_goals cases member

theorem mem_clearCmds {start count : Nat} {cmd : DiskCmd}
    (member : cmd ∈ disk.clearCmds start count) :
    cmd = ⟨.clear, start % 2 ^ 32, count % 2 ^ 32⟩ := by
  unfold clearCmds at member
  split at member
  · exact List.mem_singleton.mp member
  · exact List.mem_singleton.mp member
  all_goals cases member

end Disk

end DoggOS.Dev

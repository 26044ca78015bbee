import FerrumVM.FirmwareBlkReads

/-! The size of the disk as the firmware tells it to EFI applications. `virtio_blk_init` copies the configuration of
the block device, and `efi_init` of `efi/uefi.c` computes the last block from it; of `efi_init` only this part is
here. The device keeps its capacity in blocks, and the firmware takes it for bytes. -/

namespace FerrumVM

open Base Program BlkVirtio

/-- The struct of `virtio/blk.h`, as it lies in the copy. -/
def VirtioBlkConfig.ofBytes (bytes : Bytes) : VirtioBlkConfig where
  capacity := u64FromLe (bytes.take 8)
  sizeMax := u32FromLe ((bytes.drop 8).take 4)
  segMax := u32FromLe ((bytes.drop 12).take 4)
  blkSize := u32FromLe ((bytes.drop 16).take 4)

namespace Efi

/-- The fields of `gDiskMedia` that are computed. -/
structure BlockIoMedia where
  lastBlock : UInt64
  blockSize : UInt32
  deriving DecidableEq, Repr

/-- The media that `efi_init` sets up. A block size of zero is a division by zero. -/
def efiInit (config : VirtioBlkConfig) : Exec BlockIoMedia :=
  if config.blkSize = 0 then .error (.panic (.message "#DE"))
  else .ok ⟨config.capacity / config.blkSize.toUInt64 - 1, config.blkSize⟩

def BlockIoMedia.size (media : BlockIoMedia) : Nat := (media.lastBlock + 1).toNat * media.blockSize.toNat

end Efi

namespace BlkDriver

variable {limits : DiskLimits} {layout : BlkLayout} {disk : Bytes} {fuel : Nat}
  {g : Guest BlkStatics (DiskBlk limits)}

theorem ofBytes_configBytes (config : VirtioBlkConfig) : .ofBytes (configBytes config) = config := by
  have hcapacity := length_u64ToLe config.capacity
  have hsizeMax := length_u32ToLe config.sizeMax
  have hsegMax := length_u32ToLe config.segMax
  have hblkSize := length_u32ToLe config.blkSize
  have hdrop : ∀ n, 8 ≤ n → (u64ToLe config.capacity).drop n = [] := fun n hn =>
    List.drop_eq_nil_of_le (hcapacity.trans_le hn)
  have hdrop' : (u32ToLe config.sizeMax).drop 8 = [] := List.drop_eq_nil_of_le (hsizeMax.trans_le (by decide))
  simp [VirtioBlkConfig.ofBytes, configBytes, List.drop_append, hcapacity, hsizeMax, hsegMax,
    hblkSize, hdrop, hdrop']

theorem media_of_boot (hboot : Boot layout disk fuel g) {file : (HostOs.disk limits).File} {fileSize : UInt64}
    {host : (HostOs.disk limits).World} (hnew : g.bus.transport.device.config = (new file fileSize host).config) :
    ∃ t, virtioBlkInit layout fuel g = .ok () t ∧
      Efi.efiInit (.ofBytes t.statics.config) = .ok ⟨fileSize / 512 / 512 - 1, 512⟩ := by
  obtain ⟨t, hinit, -, -, -, hconfig⟩ := virtioBlkInit_of_boot hboot
  refine ⟨t, hinit, ?_⟩
  rw [hconfig, ofBytes_configBytes, hnew]
  exact if_neg (show ¬(512 : UInt32) = 0 by decide)

theorem size_media (fileSize : UInt64) :
    (Efi.BlockIoMedia.mk (fileSize / 512 / 512 - 1) 512).size = fileSize.toNat / 512 / 512 * 512 := by
  rw [Efi.BlockIoMedia.size, UInt64.sub_add_cancel, UInt64.toNat_div, UInt64.toNat_div]
  rfl

/-- **The size of the disk.** The media that `efi_init` sets up from the configuration of the device have as many bytes
as the image only if both have none. -/
theorem disk_size_agrees_iff (hboot : Boot layout disk fuel g) (hlength : disk.length < 2 ^ 64)
    (file : (HostOs.disk limits).File) (host : (HostOs.disk limits).World)
    (hnew : g.bus.transport.device.config = (BlkVirtio.new file (UInt64.ofNat disk.length) host).config) :
    ∃ t media, virtioBlkInit layout fuel g = .ok () t ∧ Efi.efiInit (.ofBytes t.statics.config) = .ok media ∧
      (media.size = disk.length ↔ disk.length = 0) := by
  obtain ⟨t, hinit, hmedia⟩ := media_of_boot hboot hnew
  refine ⟨t, _, hinit, hmedia, ?_⟩
  rw [size_media, UInt64.toNat_ofNat_of_lt' hlength]
  omega

/-- The machine with a disk of one sector. -/
theorem sector_is_measured : ∃ t media, virtioBlkInit bootLayout 1 booting = .ok () t ∧
    Efi.efiInit (.ofBytes t.statics.config) = .ok media ∧
      (media.size = BlkVirtio.readDisk.length ↔ BlkVirtio.readDisk.length = 0) :=
  disk_size_agrees_iff boot_booting (by rw [length_readDisk]; decide) ()
    (⟨readDisk, 0⟩ : DiskFile) (by rw [length_readDisk]; rfl)

/-- A disk of one sector has no bytes for an EFI application. -/
theorem sector_is_not_told : ∃ t media, BlkVirtio.readDisk.length = 512 ∧
    virtioBlkInit bootLayout 1 booting = .ok () t ∧ Efi.efiInit (.ofBytes t.statics.config) = .ok media ∧
      media.size = 0 := by
  obtain ⟨t, hinit, hmedia⟩ := @media_of_boot _ _ _ _ _ boot_booting () 512 (⟨readDisk, 0⟩ : DiskFile) rfl
  exact ⟨t, _, length_readDisk, hinit, hmedia, (size_media 512).trans (by decide)⟩

end BlkDriver

end FerrumVM

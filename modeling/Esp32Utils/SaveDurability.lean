import Esp32Utils.FallibleDriver

/-! # Durability of a successful save in MD5 mode

`getFileMd5` reports its failures as the empty string, and a save stores and verifies
that string like a digest. Such a save reports success and the file cannot be loaded;
every other save that reports success can be loaded with the content given to it. -/
namespace SaveDurability

open ByteStrings InteractionProgram FileSystemDriver SafeFileManipulator FallibleDriver
open ReliableDriver

/-- The first try whose writes and digest read-back succeed is one whose digest lookup
fails, so that the loop ends with no digest stored. -/
def DigestLost (faults : Stream' Fault) : Prop :=
  ∃ (tries : List (List Fault)) (last : List Fault) (rest : Stream' Fault),
    tries.length < maxSaveTriesInMd5Mode ∧ (∀ t ∈ tries, FailedTry t) ∧ PassedTry last false ∧
    faults = (tries.flatten ++ last) ++ₛ rest

/-- A save that reports success is durable exactly under the fault patterns that do not
lose the digest. -/
theorem save_durable_iff (getMD5String : Bytes → Bytes) (hmd5 : ∀ c, getMD5String c ≠ [])
    (d : Disk) (content filename : Bytes) (faults : Stream' Fault) :
    (∀ d', (saveContentToFile getMD5String .modeUseMd5 content filename).runScript
        fallible faults d = (true, d') →
      load getMD5String .modeUseMd5 filename d' = (true, content)) ↔
    ¬ DigestLost faults := by
  constructor
  · rintro h ⟨tries, last, rest, hn, hf, hl, rfl⟩
    obtain ⟨u, hu⟩ := failing_exists hf d
    have hrun := saveInMd5Mode_runScript.mpr ⟨tries, last, rest, false, u, hn, rfl, hl, hu, rfl⟩
    have hload := (load_stored false (hmd5 _)).mp (h _ hrun)
    exact absurd hload.1 (by decide)
  · intro h d' hrun
    obtain ⟨tries, last, rest, found, u, hn, rfl, hl, hu, rfl⟩ := saveInMd5Mode_runScript.mp hrun
    have hfound : found = true := by
      cases found with
      | true => rfl
      | false => exact absurd ⟨tries, last, rest, hn, failing_scripts hu, hl, rfl⟩ h
    exact (load_stored found (hmd5 _)).mpr ⟨hfound, rfl⟩

/-- The first try is cut short, the second finds its digest. -/
theorem save_durable_iff_sample :
    (∀ d', (saveContentToFile sampleMd5 .modeUseMd5 (ascii "ab") (ascii "f")).runScript
        fallible ([.fail (.partly 1)] ++ₛ Stream'.const .ok) ∅ = (true, d') →
      load sampleMd5 .modeUseMd5 (ascii "f") d' = (true, ascii "ab")) ↔
    ¬ DigestLost ([.fail (.partly 1)] ++ₛ Stream'.const .ok) :=
  save_durable_iff sampleMd5 sampleMd5_ne_nil ∅ (ascii "ab") (ascii "f")
    ([.fail (.partly 1)] ++ₛ Stream'.const .ok)

/-- The existence check inside `getFileMd5` fails once: success, and nothing to load. -/
theorem save_digest_lost :
    let r := (saveContentToFile sampleMd5 .modeUseMd5 (ascii "a") (ascii "f")).runScript
      fallible ([.ok, .fail .unchanged] ++ₛ Stream'.const .ok) ∅
    r.1 = true ∧ load sampleMd5 .modeUseMd5 (ascii "f") r.2 = (false, []) := by
  decide

end SaveDurability

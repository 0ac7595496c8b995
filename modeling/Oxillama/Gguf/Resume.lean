/-
Resuming a partial download (`oxillama-gguf/src/resume.rs`).

A checkpoint is a sidecar file with digests of the two ends of the download.  Saving it
probes `DEFAULT_PROBE_SIZE` bytes of either end; resuming probes as many as the checkpoint
says.  `resume_with_full_prefix_hash` raises that number to `u64::MAX` before it compares
with what was saved.

The `blake3` crate and the `oxicode` codec are parameters.  A file system maps paths to
files, and reading and writing succeed where the file is there.

* `resume_eq_some_iff`, `resumeFull_eq_some_iff` — what either entry point compares;
* `resumes_iff` — **resuming keeps its promises** for the files of one probe, and for no
  others.
-/
import Mathlib.Data.List.Basic
import Mathlib.Logic.Function.Basic
import Oxillama.Lib.Bytes
import Oxillama.Lib.Decoder
import Oxillama.Gguf.Types

namespace Oxillama

namespace Gguf

namespace Resume

/-! ### Files -/

/-- A file name: text, or bytes that are no text. -/
inductive FileName
  | utf8 (name : String)
  | other (bytes : List UInt8)
  deriving DecidableEq, Repr

/-- The path of a file: its directory, and its name there. -/
structure Path where
  dir : String
  name : FileName
  deriving DecidableEq, Repr

/-- A file.  It was modified so many nanoseconds after the epoch, if the platform says so. -/
structure File where
  bytes : List UInt8
  modified : Option ℤ
  deriving DecidableEq

/-- A file system. -/
abbrev Disk := Path → Option File

/-- The I/O error of a file that is not there. -/
def notFound : GgufError := .mmapError "No such file or directory (os error 2)"

/-- `std::fs::write`. -/
def Disk.write (disk : Disk) (path : Path) (file : File) : Disk :=
  Function.update disk path (some file)

/-- `std::fs::rename`. -/
def Disk.rename (disk : Disk) (source target : Path) : GgufResult Disk :=
  match disk source with
  | none => .error notFound
  | some file => .ok (Function.update (Function.update disk source none) target (some file))

/-! ### Checkpoints -/

/-- `DEFAULT_PROBE_SIZE`: 8 MiB. -/
def defaultProbeSize : UInt64 := 8 * 1024 * 1024

/-- `PrefixFingerprint`. -/
structure PrefixFingerprint (Digest : Type) where
  headHash : Digest
  tailHash : Digest
  probeSize : UInt64
  fileMtimeSecs : UInt64
  deriving DecidableEq

/-- `ResumeCheckpoint`. -/
structure ResumeCheckpoint (Digest : Type) where
  fileSizeExpected : UInt64
  lastValidOffset : UInt64
  prefixFingerprint : PrefixFingerprint Digest
  tensorsFullyLoaded : Bool
  version : UInt32
  deriving DecidableEq

/-- `ResumeCheckpoint::CURRENT_VERSION`. -/
def currentVersion : UInt32 := 1

/-- `ResumeHandle`. -/
structure ResumeHandle (Digest : Type) where
  path : Path
  checkpoint : ResumeCheckpoint Digest

/-- The `oxicode` crate, at checkpoints. -/
structure Oxicode (Digest : Type) where
  encodeToVec : ResumeCheckpoint Digest → Except String (List UInt8)
  /-- The value, and how many bytes it took. -/
  decodeFromSlice : List UInt8 → Except String (ResumeCheckpoint Digest × ℕ)

/-- What is encoded is decoded again. -/
def Oxicode.RoundTrips {Digest : Type} (oxicode : Oxicode Digest) : Prop :=
  ∀ checkpoint, ∃ bytes, oxicode.encodeToVec checkpoint = .ok bytes ∧
    oxicode.decodeFromSlice bytes = .ok (checkpoint, bytes.length)

/-- `checkpoint_path_for`. -/
def checkpointPathFor (ggufPath : Path) : Path :=
  let name := match ggufPath.name with
    | .utf8 name => name
    | .other _ => "model.gguf"
  { ggufPath with name := .utf8 (name ++ ".oxiresume") }

/-- The modification time in whole seconds; a time that is not known or lies before the epoch
counts as the epoch. -/
def File.mtimeSecs (file : File) : UInt64 :=
  match file.modified with
  | none => 0
  | some t => UInt64.ofNat (t.toNat / 10 ^ 9)

section Resume

variable {Digest : Type} [DecidableEq Digest] (blake3 : Blake3 Digest)
  (oxicode : Oxicode Digest) (disk : Disk)

/-- `compute_fingerprint_with_probe`. -/
def computeFingerprintWithProbe (path : Path) (probeSize : UInt64) :
    GgufResult (PrefixFingerprint Digest) :=
  match disk path with
  | none => .error notFound
  | some file =>
    let fileLen := file.bytes.length
    let effectiveProbe := min probeSize.toNat fileLen
    let tailStart := fileLen - effectiveProbe
    .ok { headHash := blake3.hash (file.bytes.take effectiveProbe)
          tailHash := blake3.hash ((file.bytes.drop tailStart).take effectiveProbe)
          probeSize
          fileMtimeSecs := file.mtimeSecs }

/-- `compute_fingerprint`. -/
def computeFingerprint (path : Path) : GgufResult (PrefixFingerprint Digest) :=
  computeFingerprintWithProbe blake3 disk path defaultProbeSize

/-- `save_checkpoint`, in a process `pid`, at the time `clock`. -/
def saveCheckpoint (pid : ℕ) (clock : Option ℤ) (ggufPath : Path)
    (checkpoint : ResumeCheckpoint Digest) : GgufResult Disk := do
  let sidecar := checkpointPathFor ggufPath
  let encoded ← (oxicode.encodeToVec checkpoint).mapError fun e =>
    .writeError ("oxicode encode failed: " ++ e)
  let tmp : Path := ⟨sidecar.dir, .utf8 (".oxiresume_tmp_" ++ toString pid)⟩
  (disk.write tmp ⟨encoded, clock⟩).rename tmp sidecar

/-- `load_checkpoint`. -/
def loadCheckpoint (ggufPath : Path) : GgufResult (Option (ResumeCheckpoint Digest)) :=
  match disk (checkpointPathFor ggufPath) with
  | none => .ok none
  | some sidecar => do
    let (checkpoint, _) ← (oxicode.decodeFromSlice sidecar.bytes).mapError fun e =>
      .invalidMetadata "resume_checkpoint" ("oxicode decode failed: " ++ e)
    return some checkpoint

/-- `validate_checkpoint`. -/
def validateCheckpoint (ggufPath : Path) (checkpoint : ResumeCheckpoint Digest) :
    GgufResult Unit := do
  let expected := checkpoint.prefixFingerprint
  let fp ← computeFingerprintWithProbe blake3 disk ggufPath expected.probeSize
  if fp.fileMtimeSecs ≠ expected.fileMtimeSecs then
    .error (.resumeMismatch "file mtime changed" (toString expected.fileMtimeSecs)
      (toString fp.fileMtimeSecs))
  else if fp.headHash ≠ expected.headHash then
    .error (.resumeMismatch "head hash mismatch" (hexEncode (blake3.asBytes expected.headHash))
      (hexEncode (blake3.asBytes fp.headHash)))
  else if fp.tailHash ≠ expected.tailHash then
    .error (.resumeMismatch "tail hash mismatch" (hexEncode (blake3.asBytes expected.tailHash))
      (hexEncode (blake3.asBytes fp.tailHash)))
  else .ok ()

/-- `GgufModel::resume`. -/
def resume (path : Path) : GgufResult (Option (ResumeHandle Digest)) := do
  match ← loadCheckpoint oxicode disk path with
  | none => return none
  | some checkpoint =>
    validateCheckpoint blake3 disk path checkpoint
    return some { path, checkpoint }

/-- `GgufModel::resume_with_full_prefix_hash`. -/
def resumeWithFullPrefixHash (path : Path) : GgufResult (Option (ResumeHandle Digest)) := do
  match ← loadCheckpoint oxicode disk path with
  | none => return none
  | some stored =>
    let checkpoint := { stored with
      prefixFingerprint :=
        { stored.prefixFingerprint with probeSize := UInt64.ofNat (2 ^ 64 - 1) } }
    validateCheckpoint blake3 disk path checkpoint
    return some { path, checkpoint }

/-- `GgufModel::save_resume_checkpoint`. -/
def saveResumeCheckpoint (pid : ℕ) (clock : Option ℤ) (path : Path)
    (fileSizeExpected lastValidOffset : UInt64) : GgufResult Disk := do
  let fingerprint ← computeFingerprint blake3 disk path
  saveCheckpoint oxicode disk pid clock path
    { fileSizeExpected, lastValidOffset, prefixFingerprint := fingerprint,
      tensorsFullyLoaded := false, version := currentVersion }

end Resume

/-! ### What is probed -/

/-- The first `n` bytes of a file. -/
def File.head (n : ℕ) (file : File) : List UInt8 := file.bytes.take n

/-- The last `n` bytes of a file. -/
def File.tail (n : ℕ) (file : File) : List UInt8 := file.bytes.drop (file.bytes.length - n)

/-- Two files that a probe of their ends does not tell apart, of `m` bytes in the first one and
of `n` bytes in the second one. -/
structure SameEnds (m n : ℕ) (file file' : File) : Prop where
  mtimeSecs_eq : file.mtimeSecs = file'.mtimeSecs
  head_eq : file.head m = file'.head n
  tail_eq : file.tail m = file'.tail n

theorem sameEnds_self_iff {m n : ℕ} {file : File} (hmn : n ≤ m) :
    SameEnds m n file file ↔ min m file.bytes.length = min n file.bytes.length := by
  constructor
  · intro h
    have hlen := congrArg List.length h.head_eq
    rwa [File.head, File.head, List.length_take, List.length_take] at hlen
  · intro hmin
    have hhead : file.head m = file.head n := by
      rw [File.head, File.head, List.take_eq_take_min, hmin, ← List.take_eq_take_min]
    have htail : file.bytes.length - m = file.bytes.length - n := by omega
    refine ⟨rfl, hhead, ?_⟩
    rw [File.tail, File.tail, htail]

section Correct

variable {Digest : Type} {blake3 : Blake3 Digest} {oxicode : Oxicode Digest} {disk : Disk}
  {path : Path} {file : File}

/-- The fingerprint is made of the two ends. -/
theorem computeFingerprintWithProbe_eq (hfile : disk path = some file) (probeSize : UInt64) :
    computeFingerprintWithProbe blake3 disk path probeSize =
      .ok ⟨blake3.hash (file.head probeSize.toNat), blake3.hash (file.tail probeSize.toNat),
        probeSize, file.mtimeSecs⟩ := by
  have hhead : file.bytes.take (min probeSize.toNat file.bytes.length) =
      file.head probeSize.toNat := by
    rw [File.head, ← List.take_eq_take_min]
  have hstart : file.bytes.length - min probeSize.toNat file.bytes.length =
      file.bytes.length - probeSize.toNat := by omega
  have htail : (file.bytes.drop (file.bytes.length - probeSize.toNat)).take
      (min probeSize.toNat file.bytes.length) = file.tail probeSize.toNat := by
    rw [File.tail, List.take_of_length_le]
    rw [List.length_drop]
    omega
  rw [computeFingerprintWithProbe, hfile]
  simp only [hhead, hstart, htail]

/-- The checkpoint that is saved for a file. -/
def checkpointOf (blake3 : Blake3 Digest) (file : File)
    (fileSizeExpected lastValidOffset : UInt64) : ResumeCheckpoint Digest :=
  { fileSizeExpected, lastValidOffset, tensorsFullyLoaded := false, version := currentVersion
    prefixFingerprint := ⟨blake3.hash (file.head defaultProbeSize.toNat),
      blake3.hash (file.tail defaultProbeSize.toNat), defaultProbeSize, file.mtimeSecs⟩ }

/-- Saving succeeds, and leaves the checkpoint in the sidecar. -/
theorem saveResumeCheckpoint_spec (hcodec : oxicode.RoundTrips) (hfile : disk path = some file)
    (pid : ℕ) (clock : Option ℤ) (fileSizeExpected lastValidOffset : UInt64) :
    ∃ saved sidecar, saveResumeCheckpoint blake3 oxicode disk pid clock path fileSizeExpected
        lastValidOffset = .ok saved ∧
      saved (checkpointPathFor path) = some sidecar ∧
      oxicode.decodeFromSlice sidecar.bytes =
        .ok (checkpointOf blake3 file fileSizeExpected lastValidOffset, sidecar.bytes.length) := by
  obtain ⟨bytes, hencode, hdecode⟩ :=
    hcodec (checkpointOf blake3 file fileSizeExpected lastValidOffset)
  let tmp : Path := ⟨(checkpointPathFor path).dir, .utf8 (".oxiresume_tmp_" ++ toString pid)⟩
  have htmp : disk.write tmp ⟨bytes, clock⟩ tmp = some ⟨bytes, clock⟩ := Function.update_self _ _ _
  have hsave : saveResumeCheckpoint blake3 oxicode disk pid clock path fileSizeExpected
      lastValidOffset = (disk.write tmp ⟨bytes, clock⟩).rename tmp (checkpointPathFor path) := by
    rw [saveResumeCheckpoint, computeFingerprint, computeFingerprintWithProbe_eq hfile]
    show saveCheckpoint oxicode disk pid clock path
      (checkpointOf blake3 file fileSizeExpected lastValidOffset) = _
    rw [saveCheckpoint, hencode]
    rfl
  rw [hsave, Disk.rename, htmp]
  exact ⟨_, ⟨bytes, clock⟩, rfl, Function.update_self _ _ _, hdecode⟩

theorem loadCheckpoint_eq {sidecar : File} {checkpoint : ResumeCheckpoint Digest} {n : ℕ}
    (hsidecar : disk (checkpointPathFor path) = some sidecar)
    (hdecode : oxicode.decodeFromSlice sidecar.bytes = .ok (checkpoint, n)) :
    loadCheckpoint oxicode disk path = .ok (some checkpoint) := by
  rw [loadCheckpoint, hsidecar]
  show (oxicode.decodeFromSlice sidecar.bytes).mapError _ >>= _ = _
  rw [hdecode]
  rfl

variable [DecidableEq Digest]

/-- Validation compares the time and the two ends. -/
theorem validateCheckpoint_eq_ok_iff (hhash : Function.Injective blake3.hash)
    (hfile : disk path = some file) {checkpoint : ResumeCheckpoint Digest} {saved : File} {n : ℕ}
    (hmtime : checkpoint.prefixFingerprint.fileMtimeSecs = saved.mtimeSecs)
    (hhead : checkpoint.prefixFingerprint.headHash = blake3.hash (saved.head n))
    (htail : checkpoint.prefixFingerprint.tailHash = blake3.hash (saved.tail n)) :
    validateCheckpoint blake3 disk path checkpoint = .ok () ↔
      SameEnds checkpoint.prefixFingerprint.probeSize.toNat n file saved := by
  rw [validateCheckpoint, computeFingerprintWithProbe_eq hfile, except_bind_eq_ok]
  simp only [Except.ok.injEq, exists_eq_left', hmtime, hhead, htail, ne_eq, ite_not,
    hhash.eq_iff]
  constructor
  · intro h
    split at h
    · rename_i hm
      split at h
      · rename_i hh
        split at h
        · rename_i ht
          exact ⟨hm, hh, ht⟩
        · cases h
      · cases h
    · cases h
  · rintro ⟨hm, hh, ht⟩
    rw [if_pos hm, if_pos hh, if_pos ht]

/-- Both entry points end with a validation. -/
theorem validated_iff {checkpoint : ResumeCheckpoint Digest} :
    (∃ handle, (do
        validateCheckpoint blake3 disk path checkpoint
        return some ⟨path, checkpoint⟩ : GgufResult (Option (ResumeHandle Digest))) =
      .ok (some handle)) ↔ validateCheckpoint blake3 disk path checkpoint = .ok () := by
  cases hvalid : validateCheckpoint blake3 disk path checkpoint with
  | error e =>
    refine iff_of_false ?_ ?_
    · rintro ⟨handle, h⟩
      cases h
    · intro h
      cases h
  | ok _ => exact iff_of_true ⟨_, rfl⟩ rfl

/-! ### The two entry points -/

section Entry

variable {saved : File} {sidecar : File} {fileSizeExpected lastValidOffset : UInt64} {n : ℕ}

/-- `resume` accepts what its probe does not tell apart from the saved file. -/
theorem resume_eq_some_iff (hhash : Function.Injective blake3.hash)
    (hfile : disk path = some file) (hsidecar : disk (checkpointPathFor path) = some sidecar)
    (hdecode : oxicode.decodeFromSlice sidecar.bytes =
      .ok (checkpointOf blake3 saved fileSizeExpected lastValidOffset, n)) :
    (∃ handle, resume blake3 oxicode disk path = .ok (some handle)) ↔
      SameEnds defaultProbeSize.toNat defaultProbeSize.toNat file saved := by
  rw [resume, loadCheckpoint_eq hsidecar hdecode]
  exact validated_iff.trans (validateCheckpoint_eq_ok_iff hhash hfile rfl rfl rfl)

/-- `resume_with_full_prefix_hash` compares the whole file with one probe of the saved file. -/
theorem resumeFull_eq_some_iff (hhash : Function.Injective blake3.hash)
    (hfile : disk path = some file) (hsidecar : disk (checkpointPathFor path) = some sidecar)
    (hdecode : oxicode.decodeFromSlice sidecar.bytes =
      .ok (checkpointOf blake3 saved fileSizeExpected lastValidOffset, n)) :
    (∃ handle, resumeWithFullPrefixHash blake3 oxicode disk path = .ok (some handle)) ↔
      SameEnds (2 ^ 64 - 1) defaultProbeSize.toNat file saved := by
  rw [resumeWithFullPrefixHash, loadCheckpoint_eq hsidecar hdecode]
  exact validated_iff.trans (validateCheckpoint_eq_ok_iff hhash hfile rfl rfl rfl)

end Entry

/-! ### What resuming promises -/

/-- A later state of the file system, with the sidecar that was saved. -/
def KeepsSidecar (saved now : Disk) (path : Path) : Prop :=
  now (checkpointPathFor path) = saved (checkpointPathFor path)

/-- **What resuming promises** about a file whose checkpoint was saved: as long as the file is
unchanged both entry points accept it, and once the prefix that was probed has changed neither
does. -/
structure Resumes (blake3 : Blake3 Digest) (oxicode : Oxicode Digest) (saved : Disk)
    (path : Path) (file : File) : Prop where
  accepts : ∀ now, KeepsSidecar saved now path → now path = some file →
    (∃ handle, resume blake3 oxicode now path = .ok (some handle)) ∧
      ∃ handle, resumeWithFullPrefixHash blake3 oxicode now path = .ok (some handle)
  rejects : ∀ now file', KeepsSidecar saved now path → now path = some file' →
    file'.head defaultProbeSize.toNat ≠ file.head defaultProbeSize.toNat →
      (¬ ∃ handle, resume blake3 oxicode now path = .ok (some handle)) ∧
        ¬ ∃ handle, resumeWithFullPrefixHash blake3 oxicode now path = .ok (some handle)

/-- A probe of more bytes sees every change of the prefix. -/
theorem SameEnds.head_le {m n : ℕ} {file file' : File} (h : SameEnds m n file file')
    (hmn : n ≤ m) : file.head n = file'.head n := by
  have hhead := congrArg (List.take n) h.head_eq
  rwa [File.head, File.head, List.take_take, List.take_take, Nat.min_eq_left hmn,
    Nat.min_self] at hhead

/-- The promises come down to one probe of the file itself. -/
theorem resumes_iff_sameEnds (hhash : Function.Injective blake3.hash) {saved : Disk}
    {sidecar : File} {fileSizeExpected lastValidOffset : UInt64} {n : ℕ}
    (hsidecar : saved (checkpointPathFor path) = some sidecar)
    (hdecode : oxicode.decodeFromSlice sidecar.bytes =
      .ok (checkpointOf blake3 file fileSizeExpected lastValidOffset, n)) :
    Resumes blake3 oxicode saved path file ↔
      SameEnds (2 ^ 64 - 1) defaultProbeSize.toNat file file := by
  have hself : SameEnds defaultProbeSize.toNat defaultProbeSize.toNat file file := ⟨rfl, rfl, rfl⟩
  constructor
  · intro h
    -- the sidecar does not lie at the path of the file
    have hne : checkpointPathFor path ≠ path := by
      intro heq
      obtain ⟨dir, name | bytes⟩ := path
      · have hname : name ++ ".oxiresume" = name := FileName.utf8.inj (congrArg Path.name heq)
        have hlen := congrArg String.length hname
        have hsuffix : ".oxiresume".length = 10 := by decide
        rw [String.length_append, hsuffix] at hlen
        omega
      · cases congrArg Path.name heq
    let now : Disk := Function.update saved path (some file)
    have hkeeps : KeepsSidecar saved now path := Function.update_of_ne hne _ _
    have hnow : now path = some file := Function.update_self _ _ _
    exact (resumeFull_eq_some_iff hhash hnow (hkeeps.trans hsidecar) hdecode).mp
      (h.accepts now hkeeps hnow).2
  · intro h
    constructor
    · intro now hkeeps hnow
      have hsidecar' := Eq.trans hkeeps hsidecar
      exact ⟨(resume_eq_some_iff hhash hnow hsidecar' hdecode).mpr hself,
        (resumeFull_eq_some_iff hhash hnow hsidecar' hdecode).mpr h⟩
    · intro now file' hkeeps hnow hchanged
      have hsidecar' := Eq.trans hkeeps hsidecar
      constructor
      · rw [resume_eq_some_iff hhash hnow hsidecar' hdecode]
        exact fun hsame => hchanged hsame.head_eq
      · rw [resumeFull_eq_some_iff hhash hnow hsidecar' hdecode]
        exact fun hsame => hchanged (hsame.head_le (by decide))

/-- One probe of the file is the whole file exactly if the file is that short. -/
theorem sameEnds_full_iff :
    SameEnds (2 ^ 64 - 1) defaultProbeSize.toNat file file ↔
      file.bytes.length ≤ defaultProbeSize.toNat := by
  have hsize : defaultProbeSize.toNat = 8388608 := rfl
  rw [sameEnds_self_iff (by omega)]
  omega

/-- **Resuming keeps its promises for the files of one probe.**  Saving a checkpoint succeeds;
from then on an unchanged file is accepted by both entry points, and a file with a changed
prefix by neither, if and only if the file has at most `DEFAULT_PROBE_SIZE` bytes. -/
theorem resumes_iff (hhash : Function.Injective blake3.hash) (hcodec : oxicode.RoundTrips)
    (hfile : disk path = some file) (pid : ℕ) (clock : Option ℤ)
    (fileSizeExpected lastValidOffset : UInt64) :
    ∃ saved, saveResumeCheckpoint blake3 oxicode disk pid clock path fileSizeExpected
        lastValidOffset = .ok saved ∧
      (Resumes blake3 oxicode saved path file ↔
        file.bytes.length ≤ defaultProbeSize.toNat) := by
  obtain ⟨saved, sidecar, hsave, hsidecar, hdecode⟩ := saveResumeCheckpoint_spec hcodec hfile
    pid clock fileSizeExpected lastValidOffset
  exact ⟨saved, hsave,
    (resumes_iff_sameEnds hhash hsidecar hdecode).trans sameEnds_full_iff⟩

end Correct

/-! ### A hash and a codec -/

/-- A hash without collisions, with the digest of `blake3` for no bytes at all. -/
def sampleBlake3 : Blake3 (List UInt8) where
  hash bytes := if bytes = [] then
      [0xaf, 0x13, 0x49, 0xb9, 0xf5, 0xf9, 0xa1, 0xa6, 0xa0, 0x40, 0x4d, 0xea, 0x36, 0xdc, 0xc9,
        0x49, 0x9b, 0xcb, 0x25, 0xc9, 0xad, 0xc1, 0x12, 0xb7, 0xcc, 0x9a, 0x93, 0xca, 0xe4, 0x1f,
        0x32, 0x62]
    else 0 :: bytes
  asBytes := id

theorem sampleBlake3_injective : Function.Injective sampleBlake3.hash := by
  intro xs ys h
  simp only [sampleBlake3] at h
  split at h <;> split at h <;> simp_all

/-- A byte string that tells where it ends. -/
def frame : List UInt8 → List UInt8
  | [] => [0]
  | b :: bs => 1 :: b :: frame bs

/-- The string, and what is behind it. -/
def unframe : List UInt8 → Option (List UInt8 × List UInt8)
  | 0 :: rest => some ([], rest)
  | 1 :: b :: rest => (unframe rest).map fun r => (b :: r.1, r.2)
  | _ => none

theorem unframe_frame (bs rest : List UInt8) : unframe (frame bs ++ rest) = some (bs, rest) := by
  induction bs with
  | nil => rfl
  | cons b bs ih =>
    show (unframe (frame bs ++ rest)).map _ = _
    rw [ih]
    rfl

/-- A codec that writes the fields one behind the other. -/
def sampleOxicode : Oxicode (List UInt8) where
  encodeToVec c := .ok (frame (toLe 8 c.fileSizeExpected.toNat) ++
    (frame (toLe 8 c.lastValidOffset.toNat) ++ (frame c.prefixFingerprint.headHash ++
      (frame c.prefixFingerprint.tailHash ++ (frame (toLe 8 c.prefixFingerprint.probeSize.toNat) ++
        (frame (toLe 8 c.prefixFingerprint.fileMtimeSecs.toNat) ++
          (frame [if c.tensorsFullyLoaded then 1 else 0] ++
            frame (toLe 4 c.version.toNat))))))))
  decodeFromSlice bytes := okOr "unexpected end" (do
    let (fileSizeExpected, rest) ← unframe bytes
    let (lastValidOffset, rest) ← unframe rest
    let (headHash, rest) ← unframe rest
    let (tailHash, rest) ← unframe rest
    let (probeSize, rest) ← unframe rest
    let (fileMtimeSecs, rest) ← unframe rest
    let (tensorsFullyLoaded, rest) ← unframe rest
    let (version, rest) ← unframe rest
    return ({ fileSizeExpected := UInt64.ofNat (fromLe fileSizeExpected)
              lastValidOffset := UInt64.ofNat (fromLe lastValidOffset)
              prefixFingerprint :=
                { headHash, tailHash
                  probeSize := UInt64.ofNat (fromLe probeSize)
                  fileMtimeSecs := UInt64.ofNat (fromLe fileMtimeSecs) }
              tensorsFullyLoaded := tensorsFullyLoaded = [1]
              version := UInt32.ofNat (fromLe version) }, bytes.length - rest.length))

theorem sampleOxicode_roundTrips : sampleOxicode.RoundTrips := by
  intro c
  have hu64 : ∀ v : UInt64, UInt64.ofNat (fromLe (toLe 8 v.toNat)) = v := by
    intro v
    rw [fromLe_toLe_of_lt v.toNat_lt, UInt64.ofNat_toNat]
  have hu32 : ∀ v : UInt32, UInt32.ofNat (fromLe (toLe 4 v.toNat)) = v := by
    intro v
    rw [fromLe_toLe_of_lt v.toNat_lt, UInt32.ofNat_toNat]
  have hlast : ∀ bs, unframe (frame bs) = some (bs, []) := by
    intro bs
    have h := unframe_frame bs []
    rwa [List.append_nil] at h
  have hbool : ∀ b : Bool, decide ([if b then (1 : UInt8) else 0] = [1]) = b := by decide
  refine ⟨_, rfl, ?_⟩
  simp only [sampleOxicode, unframe_frame, hlast, hu64, hu32, hbool, Option.bind_eq_bind,
    Option.bind_some]
  rfl

/-- A file system with one file, which was modified at the epoch. -/
def diskWith (bytes : List UInt8) : Disk :=
  Function.update (fun _ => none) ⟨"/models", .utf8 "model.gguf"⟩ (some ⟨bytes, some 0⟩)

/-- Resuming keeps its promises for a file without any bytes. -/
theorem resumes_iff_empty :
    ∃ saved, saveResumeCheckpoint sampleBlake3 sampleOxicode (diskWith []) 4711 none
        ⟨"/models", .utf8 "model.gguf"⟩ 1024 512 = .ok saved ∧
      Resumes sampleBlake3 sampleOxicode saved ⟨"/models", .utf8 "model.gguf"⟩ ⟨[], some 0⟩ := by
  obtain ⟨saved, hsave, h⟩ := resumes_iff sampleBlake3_injective sampleOxicode_roundTrips
    (Function.update_self _ _ _ : diskWith [] _ = some ⟨[], some 0⟩) 4711 none 1024 512
  exact ⟨saved, hsave, h.mpr (Nat.zero_le _)⟩

/-- **One byte more than a probe**: an unchanged file of 8 MiB and one byte is not accepted. -/
theorem not_resumes_long :
    ∃ saved, saveResumeCheckpoint sampleBlake3 sampleOxicode
        (diskWith (List.replicate 8388609 0)) 4711 none ⟨"/models", .utf8 "model.gguf"⟩ 16777216
        8388609 = .ok saved ∧
      ¬ Resumes sampleBlake3 sampleOxicode saved ⟨"/models", .utf8 "model.gguf"⟩
        ⟨List.replicate 8388609 0, some 0⟩ := by
  have hfile : diskWith (List.replicate 8388609 0) ⟨"/models", .utf8 "model.gguf"⟩ =
      some ⟨List.replicate 8388609 0, some 0⟩ := Function.update_self _ _ _
  obtain ⟨saved, sidecar, hsave, hsidecar, hdecode⟩ := @saveResumeCheckpoint_spec _ sampleBlake3
    _ _ _ _ sampleOxicode_roundTrips hfile 4711 none 16777216 8388609
  refine ⟨saved, hsave, ?_⟩
  have hsize : defaultProbeSize.toNat = 8388608 := rfl
  rw [resumes_iff_sameEnds sampleBlake3_injective hsidecar hdecode, sameEnds_full_iff,
    List.length_replicate, hsize]
  omega

end Resume

end Gguf

end Oxillama

import Selendra.Collections.Map
import Selendra.RateLimiter.TokenBucket
import Mathlib

/-! # The AlephBFT backup

`party/backup.rs`: the files in which AlephBFT saves the units of a session, so that a node
that restarts in the middle of a session replays what it had done. Each run of a session
(`rotate`) reads the files of the earlier runs, in the order of their numbers, and opens the
next file for its own writes; at the start of a session (`remove_old_backups`) the directories
of earlier sessions are removed.

The file system is a finite map: the backup directories at their paths, in each the session
directories by name, in each the files by name with their bytes. A directory that is missing
is the empty one, which is what `create_dir_all` makes of it and what the other functions see
of it. The order in which a directory lists its entries is that of the map; nothing below
depends on it. Names are parsed on their characters, as Rust's `strip_suffix` and `FromStr`
of the unsigned integer types do.

The results: over every sequence of runs of a session whose directory starts empty, the next
rotation succeeds, creates the file numbered by the count of runs before it and loads what
those runs wrote, in order; a rotation reports an incomplete backup exactly when the parsed
numbers are no permutation of `0..m`; and the removal removes exactly the directories whose
names parse as a session before the current one. -/

namespace Selendra.Party

open RateLimiter (usizeMax)

/-! ## Names -/

/-- `BACKUP_FILE_EXTENSION`. -/
def backupFileExtension : String := ".abfts"

/-- `u32::MAX`. -/
def u32Max : Nat := 2 ^ 32 - 1

/-- `FromStr` of an unsigned integer type whose largest value is `max`, on the characters of
the string: an optional `+`, then at least one decimal digit, of a value that fits. -/
def fromStr (max : Nat) (s : List Char) : Option Nat :=
  let digits := if s.head? = some '+' then s.tail else s
  if digits ≠ [] ∧ digits.all Char.isDigit ∧ Nat.ofDigitChars 10 digits 0 ≤ max then
    some (Nat.ofDigitChars 10 digits 0)
  else none

/-- `str::strip_suffix`, on the characters of the strings. -/
def stripSuffix (s suffix : List Char) : Option (List Char) :=
  if suffix.isSuffixOf s then some (s.take (s.length - suffix.length)) else none

/-- The index in the name of a backup file: the name without `.abfts`, as a `usize`. -/
def backupIdx (name : String) : Option Nat :=
  (stripSuffix name.toList backupFileExtension.toList).bind (fromStr usizeMax)

/-- `format!("{index}{BACKUP_FILE_EXTENSION}")`. -/
def backupFileName (index : Nat) : String := toString index ++ backupFileExtension

/-! ## The file system -/

/-- A session's directory: the names of its files, with their contents. -/
abbrev SessionDir := AList (fun _ : String => List UInt8)

/-- A backup directory: its session directories, by name. -/
abbrev BackupDir := AList (fun _ : String => SessionDir)

/-- The file system: the backup directories, by path. -/
abbrev FileSystem := AList (fun _ : String => BackupDir)

/-- The backup directory at a path. -/
def backupDir (fs : FileSystem) (path : String) : BackupDir := (fs.lookup path).getD ∅

/-- The directory of a session in the backup directory at a path. -/
def sessionDir (fs : FileSystem) (path sessionPath : String) : SessionDir :=
  ((backupDir fs path).lookup sessionPath).getD ∅

/-- The file system with the directory of a session replaced. -/
def setSessionDir (fs : FileSystem) (path sessionPath : String) (session : SessionDir) :
    FileSystem :=
  fs.insert path ((backupDir fs path).insert sessionPath session)

/-- The one kind of `io::Error` the model raises: a file that is not there. -/
inductive IOError
  | notFound
deriving DecidableEq, Repr

inductive BackupLoadError
  | backupIncomplete (backups : List Nat)
  | ioError (err : IOError)
deriving DecidableEq, Repr

/-- A file of a session's backup. -/
structure BackupFile where
  path : String
  sessionPath : String
  name : String
deriving DecidableEq, Repr

/-- What `rotate` hands to AlephBFT: the file its saver appends to (`none` for `io::sink`), and
the bytes its loader yields. -/
structure ABFTBackup where
  saver : Option BackupFile
  loader : List UInt8
deriving DecidableEq, Repr

/-! ## Rotation -/

/-- Find all `*.abfts` files of a session's directory and return their indexes sorted, if all
are present. -/
def getSessionBackupIdxs (session : SessionDir) : Except BackupLoadError (List Nat) :=
  let sessionBackups := (session.keys.filterMap backupIdx).mergeSort (· ≤ ·)
  if sessionBackups ≠ List.range sessionBackups.length then
    .error (.backupIncomplete sessionBackups)
  else .ok sessionBackups

/-- `File::open(load_path)?.read_to_end(&mut buffer)?` for the file of one index. -/
def readToEnd (session : SessionDir) (buffer : List UInt8) (index : Nat) :
    Except BackupLoadError (List UInt8) :=
  match session.lookup (backupFileName index) with
  | some contents => .ok (buffer ++ contents)
  | none => .error (.ioError .notFound)

/-- Load the backup of a session from all `sessionIdxs`, in their order. -/
def loadBackup (session : SessionDir) (sessionIdxs : List Nat) :
    Except BackupLoadError (List UInt8) :=
  sessionIdxs.foldlM (readToEnd session) []

/-- The name of the next backup file of a session. The build does not check overflow, so the
`usize` index after the last wraps. -/
def getNextPath (sessionIdxs : List Nat) : String :=
  backupFileName ((sessionIdxs.getLast?.map fun i => (i + 1) % 2 ^ 64).getD 0)

/-- Loads the existing backups, and opens a new backup file to write to. -/
def rotate (fs : FileSystem) (backupPath : Option String) (sessionId : Nat) :
    Except BackupLoadError (ABFTBackup × FileSystem) :=
  match backupPath with
  | none => .ok (⟨none, []⟩, fs)
  | some path => do
    let sessionPath := toString sessionId
    -- `create_dir_all`: a missing directory is the empty one
    let session := sessionDir fs path sessionPath
    let sessionBackupIdxs ← getSessionBackupIdxs session
    let backupLoader ← loadBackup session sessionBackupIdxs
    let nextBackupPath := getNextPath sessionBackupIdxs
    -- `File::create`: the saver's file, empty
    pure (⟨some ⟨path, sessionPath, nextBackupPath⟩, backupLoader⟩,
      setSessionDir fs path sessionPath (session.insert nextBackupPath []))

/-- Writes to a saver: the bytes go to the end of its file. -/
def save (fs : FileSystem) (saver : Option BackupFile) (bytes : List UInt8) : FileSystem :=
  match saver with
  | none => fs
  | some file =>
    let session := sessionDir fs file.path file.sessionPath
    setSessionDir fs file.path file.sessionPath
      (session.insert file.name (((session.lookup file.name).getD []) ++ bytes))

/-- Runs of a node in one session: each rotates the backup, then writes what it got to before
it stopped. The runs end at the first rotation that fails. -/
def runSession (path : String) (sessionId : Nat) :
    FileSystem → List (List UInt8) → Except BackupLoadError FileSystem
  | fs, [] => .ok fs
  | fs, written :: later => do
    let (backup, fs) ← rotate fs (some path) sessionId
    runSession path sessionId (save fs backup.saver written) later

/-! ## Removal -/

/-- One entry of the loop of `remove_old_backups`: a session directory is removed when its name
parses as a session before the current one. -/
def removeIfOld (currentSession : Nat) (dir : BackupDir) (name : String) : BackupDir :=
  match fromStr u32Max name.toList with
  | some sessionId => if sessionId < currentSession then dir.erase name else dir
  | none => dir

/-- Removes the backup directory for all old sessions except the current session. -/
def removeOldBackups (fs : FileSystem) (path : Option String) (currentSession : Nat) :
    FileSystem :=
  match path with
  | none => fs
  | some path =>
    match fs.lookup path with
    | none => fs
    | some dir => fs.insert path (dir.keys.foldl (removeIfOld currentSession) dir)

/-! ## Names read back -/

theorem toList_backupFileName (index : Nat) :
    (backupFileName index).toList = Nat.toDigits 10 index ++ backupFileExtension.toList := by
  simp [backupFileName]

/-- The decimal digits of a number parse back as it when it fits. -/
theorem fromStr_toDigits (max n : Nat) :
    fromStr max (Nat.toDigits 10 n) = if n ≤ max then some n else none := by
  have hdigit : ∀ c ∈ Nat.toDigits 10 n, c.isDigit = true :=
    fun c hc => Nat.isDigit_of_mem_toDigits (by decide) (by decide) hc
  -- a digit comes first, not a sign
  have hhead : (Nat.toDigits 10 n).head? ≠ some '+' := by
    intro h
    have hplus := hdigit '+' (List.mem_of_mem_head? h)
    exact absurd hplus (by decide)
  simp only [fromStr, if_neg hhead, Nat.ofDigitChars_ten_toDigits]
  by_cases hn : n ≤ max
  · rw [if_pos ⟨Nat.toDigits_ne_nil, List.all_eq_true.mpr hdigit, hn⟩, if_pos hn]
  · rw [if_neg (fun h => hn h.2.2), if_neg hn]

theorem fromStr_toString (max n : Nat) :
    fromStr max (toString n).toList = if n ≤ max then some n else none := by
  rw [Nat.toString_eq_repr, Nat.toList_repr, fromStr_toDigits]

theorem stripSuffix_append (l suffix : List Char) : stripSuffix (l ++ suffix) suffix = some l := by
  rw [stripSuffix, if_pos (List.isSuffixOf_iff_suffix.mpr (List.suffix_append l suffix))]
  simp

/-- The name of a backup file reads back as its index, for every index a `usize` holds. -/
theorem backupIdx_backupFileName {index : Nat} (h : index ≤ usizeMax) :
    backupIdx (backupFileName index) = some index := by
  rw [backupIdx, toList_backupFileName, stripSuffix_append, Option.bind_some, fromStr_toDigits,
    if_pos h]

theorem backupFileName_inj {i j : Nat} : backupFileName i = backupFileName j ↔ i = j := by
  constructor
  · intro h
    have hdigits : Nat.toDigits 10 i = Nat.toDigits 10 j := by
      have hlists := congrArg String.toList h
      rw [toList_backupFileName, toList_backupFileName] at hlists
      exact List.append_cancel_right hlists
    calc i = Nat.ofDigitChars 10 (Nat.toDigits 10 i) 0 := Nat.ofDigitChars_ten_toDigits.symm
      _ = Nat.ofDigitChars 10 (Nat.toDigits 10 j) 0 := by rw [hdigits]
      _ = j := Nat.ofDigitChars_ten_toDigits
  · rintro rfl
    rfl

@[simp] theorem sessionDir_setSessionDir (fs : FileSystem) (path sessionPath : String)
    (session : SessionDir) :
    sessionDir (setSessionDir fs path sessionPath session) path sessionPath = session := by
  simp [sessionDir, setSessionDir, backupDir, AList.lookup_insert]

@[simp] theorem setSessionDir_setSessionDir (fs : FileSystem) (path sessionPath : String)
    (session session' : SessionDir) :
    setSessionDir (setSessionDir fs path sessionPath session) path sessionPath session' =
      setSessionDir fs path sessionPath session' := by
  simp [setSessionDir, backupDir, AList.lookup_insert, AList.insert_insert]

/-! ## The indexes of a session -/

/-- A list of indexes sorts to `0..m` exactly when it is a permutation of `0..m`. -/
theorem mergeSort_eq_range_iff (l : List Nat) (m : Nat) :
    l.mergeSort (· ≤ ·) = List.range m ↔ l.Perm (List.range m) := by
  constructor
  · intro h
    rw [← h]
    exact (List.mergeSort_perm l _).symm
  · intro h
    exact List.Perm.eq_of_pairwise' (List.pairwise_mergeSort' (· ≤ ·) l) List.pairwise_le_range
      ((List.mergeSort_perm l _).trans h)

theorem getSessionBackupIdxs_of_perm {session : SessionDir} {m : Nat}
    (h : (session.keys.filterMap backupIdx).Perm (List.range m)) :
    getSessionBackupIdxs session = .ok (List.range m) := by
  have hsorted := (mergeSort_eq_range_iff _ m).mpr h
  simp only [getSessionBackupIdxs, hsorted, List.length_range, ne_eq, not_true_eq_false,
    if_false]

/-- The indexes are refused exactly when they are no permutation of `0..m`. -/
theorem getSessionBackupIdxs_incomplete_iff (session : SessionDir) :
    (∃ backups, getSessionBackupIdxs session = .error (.backupIncomplete backups)) ↔
      ∀ m, ¬ (session.keys.filterMap backupIdx).Perm (List.range m) := by
  constructor
  · rintro ⟨backups, hb⟩ m hperm
    rw [getSessionBackupIdxs_of_perm hperm] at hb
    cases hb
  · intro hnone
    -- the sorted indexes are not `0..len`, or the indexes would be a permutation of them
    have hne : (session.keys.filterMap backupIdx).mergeSort (· ≤ ·) ≠
        List.range ((session.keys.filterMap backupIdx).mergeSort (· ≤ ·)).length :=
      fun heq => hnone _ ((mergeSort_eq_range_iff _ _).mp heq)
    exact ⟨(session.keys.filterMap backupIdx).mergeSort (· ≤ ·),
      by simp only [getSessionBackupIdxs, if_pos hne]⟩

/-- Loading files whose contents `f` gives appends them in the order of the indexes. -/
theorem foldlM_readToEnd (session : SessionDir) (f : Nat → List UInt8) :
    ∀ (idxs : List Nat) (buffer : List UInt8),
      (∀ i ∈ idxs, session.lookup (backupFileName i) = some (f i)) →
      idxs.foldlM (readToEnd session) buffer = .ok (buffer ++ (idxs.map f).flatten)
  | [], buffer, _ => by simp [pure, Except.pure]
  | i :: idxs, buffer, h => by
    have hread : readToEnd session buffer i = .ok (buffer ++ f i) := by
      rw [readToEnd, h i List.mem_cons_self]
    have hrest := foldlM_readToEnd session f idxs (buffer ++ f i)
      (fun j hj => h j (List.mem_cons_of_mem i hj))
    simp only [List.foldlM_cons, hread, bind, Except.bind, hrest, List.map_cons,
      List.flatten_cons, List.append_assoc]

/-- Loading fails only on a missing file. -/
theorem foldlM_readToEnd_ne_incomplete {session : SessionDir} {backups : List Nat} :
    ∀ (idxs : List Nat) (buffer : List UInt8),
      idxs.foldlM (readToEnd session) buffer ≠ .error (.backupIncomplete backups)
  | [], buffer => by simp [pure, Except.pure]
  | i :: idxs, buffer => by
    cases hlookup : session.lookup (backupFileName i) with
    | none => simp [readToEnd, hlookup, bind, Except.bind]
    | some contents =>
      simpa [readToEnd, hlookup, bind, Except.bind] using
        foldlM_readToEnd_ne_incomplete idxs (buffer ++ contents)

/-- A rotation reports an incomplete backup exactly when the indexes of the session's files are
no permutation of `0..m`. -/
theorem rotate_incomplete_iff (fs : FileSystem) (path : String) (sessionId : Nat) :
    (∃ backups, rotate fs (some path) sessionId = .error (.backupIncomplete backups)) ↔
      ∀ m, ¬ ((sessionDir fs path (toString sessionId)).keys.filterMap backupIdx).Perm
        (List.range m) := by
  rw [← getSessionBackupIdxs_incomplete_iff]
  cases hidxs : getSessionBackupIdxs (sessionDir fs path (toString sessionId)) with
  | error e => simp only [rotate, hidxs, bind, Except.bind, Except.error.injEq]
  | ok idxs =>
    cases hload : loadBackup (sessionDir fs path (toString sessionId)) idxs with
    | error e =>
      -- the indexes passed, and loading fails only on a missing file
      have hne : ∀ backups, e ≠ .backupIncomplete backups := fun backups h =>
        foldlM_readToEnd_ne_incomplete idxs [] (by rw [← loadBackup, hload, h])
      simp only [rotate, hidxs, hload, bind, Except.bind]
      simp [hne]
    | ok loader =>
      simp only [rotate, hidxs, hload, bind, Except.bind, pure, Except.pure]
      simp

/-! ## Runs of a session -/

/-- A session's directory holds exactly the backup files of the runs so far, the `i`-th with
what the `i`-th run wrote. -/
structure Replays (session : SessionDir) (written : List (List UInt8)) : Prop where
  keys_perm : session.keys.Perm ((List.range written.length).map backupFileName)
  lookup_eq : ∀ i, session.lookup (backupFileName i) = written[i]?

theorem replays_nil {session : SessionDir} (h : session.keys = []) : Replays session [] where
  keys_perm := by simp [h]
  lookup_eq i := by
    have hnot : backupFileName i ∉ session := by
      rw [AList.mem_keys, h]
      exact List.not_mem_nil
    simpa using AList.lookup_eq_none.mpr hnot

/-- The file the next run will create is not there yet. -/
theorem Replays.next_fresh {session : SessionDir} {written : List (List UInt8)}
    (hr : Replays session written) : backupFileName written.length ∉ session := by
  rw [← AList.lookup_eq_none, hr.lookup_eq]
  simp

/-- The indexes of the files of the runs so far are `0..k`, while each is a `usize`. -/
theorem Replays.backupIdxs_perm {session : SessionDir} {written : List (List UInt8)}
    (hr : Replays session written) (hlen : written.length ≤ usizeMax + 1) :
    (session.keys.filterMap backupIdx).Perm (List.range written.length) := by
  have hsome : ∀ i ∈ List.range written.length, (backupIdx ∘ backupFileName) i = some i :=
    fun i hi => backupIdx_backupFileName (by rw [List.mem_range] at hi; omega)
  have hnames : ((List.range written.length).map backupFileName).filterMap backupIdx =
      List.range written.length := by
    rw [List.filterMap_map, List.filterMap_congr hsome, List.filterMap_some]
  exact hnames ▸ hr.keys_perm.filterMap backupIdx

/-- The contents of the files `0..k` are the writes of the runs so far. -/
theorem map_getD_range (written : List (List UInt8)) :
    (List.range written.length).map (fun i => written[i]?.getD []) = written :=
  List.ext_getElem (by simp) (fun i _ hi => by simp [hi])

/-- The rotation after runs that wrote `written` loads their writes in order and creates the
file numbered by their count. -/
theorem rotate_of_replays {fs : FileSystem} {path : String} {sessionId : Nat}
    {written : List (List UInt8)}
    (hr : Replays (sessionDir fs path (toString sessionId)) written)
    (hlen : written.length ≤ usizeMax) :
    rotate fs (some path) sessionId =
      .ok (⟨some ⟨path, toString sessionId, backupFileName written.length⟩, written.flatten⟩,
        setSessionDir fs path (toString sessionId)
          ((sessionDir fs path (toString sessionId)).insert (backupFileName written.length) [])) := by
  have hidxs := getSessionBackupIdxs_of_perm (hr.backupIdxs_perm (by omega))
  have hload : loadBackup (sessionDir fs path (toString sessionId))
      (List.range written.length) = .ok written.flatten := by
    have hfiles := foldlM_readToEnd (sessionDir fs path (toString sessionId))
      (fun i => written[i]?.getD []) (List.range written.length) []
      (fun i hi => by
        rw [hr.lookup_eq i, List.getElem?_eq_getElem (List.mem_range.mp hi)]
        simp)
    rw [loadBackup, hfiles, List.nil_append, map_getD_range]
  -- the last index is `k - 1`, and `k` fits a `usize`, so the next index does not wrap
  have hnext : getNextPath (List.range written.length) = backupFileName written.length := by
    rw [getNextPath, List.getLast?_range]
    split
    · simp_all
    · have hlt : written.length < 2 ^ 64 := by
        simp only [usizeMax] at hlen
        omega
      simp only [Option.map_some, Option.getD_some]
      rw [Nat.sub_add_cancel (by omega), Nat.mod_eq_of_lt hlt]
  simp only [rotate, hidxs, hload, hnext, bind, Except.bind, pure, Except.pure]

/-- A run's writes fill the file its rotation created, which was not there before. -/
theorem Replays.insert {session : SessionDir} {written : List (List UInt8)}
    (hr : Replays session written) (w : List UInt8) :
    Replays (session.insert (backupFileName written.length) w) (written ++ [w]) := by
  constructor
  · rw [AList.keys_insert, List.erase_of_not_mem (fun h => hr.next_fresh (AList.mem_keys.mpr h)),
      List.length_append, List.length_singleton, List.range_succ, List.map_append,
      List.map_singleton]
    exact (hr.keys_perm.cons _).trans (List.perm_append_singleton _ _).symm
  · intro i
    by_cases hi : i = written.length
    · subst hi
      simp [AList.lookup_insert]
    · rw [AList.lookup_insert_ne (fun h => hi (backupFileName_inj.mp h)), hr.lookup_eq i]
      by_cases hlt : i < written.length
      · rw [List.getElem?_append_left hlt]
      · rw [List.getElem?_eq_none (by omega), List.getElem?_eq_none (by simp; omega)]

/-- Over runs that wrote `later`, from a directory holding the files of runs that wrote
`written`, every rotation succeeds and the directory ends with the files of all of them. -/
theorem runSession_replays {path : String} {sessionId : Nat} :
    ∀ (later : List (List UInt8)) {fs : FileSystem} {written : List (List UInt8)},
      Replays (sessionDir fs path (toString sessionId)) written →
      (written ++ later).length ≤ usizeMax →
      ∃ fs', runSession path sessionId fs later = .ok fs' ∧
        Replays (sessionDir fs' path (toString sessionId)) (written ++ later)
  | [], fs, written, hr, _ => ⟨fs, rfl, by simpa using hr⟩
  | w :: later, fs, written, hr, hlen => by
    have hk : written.length ≤ usizeMax := by
      simp only [List.length_append, List.length_cons] at hlen
      omega
    -- the rotation creates the next file, empty, and the run's writes fill it
    have hsaved : sessionDir (save (setSessionDir fs path (toString sessionId)
          ((sessionDir fs path (toString sessionId)).insert (backupFileName written.length) []))
          (some ⟨path, toString sessionId, backupFileName written.length⟩) w)
        path (toString sessionId) =
        (sessionDir fs path (toString sessionId)).insert (backupFileName written.length) w := by
      simp [save, AList.lookup_insert, AList.insert_insert]
    have hnext := hr.insert w
    rw [← hsaved] at hnext
    obtain ⟨fs', hrun, hr'⟩ := runSession_replays later hnext (by simpa using hlen)
    refine ⟨fs', ?_, by simpa using hr'⟩
    simp only [runSession, rotate_of_replays hr hk, bind, Except.bind]
    exact hrun

/-! ## Removal of old sessions -/

theorem lookup_removeIfOld (currentSession : Nat) (dir : BackupDir) (entry name : String) :
    (removeIfOld currentSession dir entry).lookup name =
      if name = entry ∧ ∃ sessionId, fromStr u32Max entry.toList = some sessionId ∧
          sessionId < currentSession
      then none else dir.lookup name := by
  unfold removeIfOld
  cases hparse : fromStr u32Max entry.toList with
  | none => simp
  | some sessionId =>
    by_cases hold : sessionId < currentSession
    · by_cases hname : name = entry
      · subst hname
        simp [hold, AList.lookup_erase]
      · simp [hold, hname, AList.lookup_erase_ne hname]
    · simp [hold]

/-- The loop over the entries of a backup directory removes the entries it meets whose names
parse as an earlier session. -/
theorem lookup_foldl_removeIfOld (currentSession : Nat) (name : String) :
    ∀ (entries : List String) (dir : BackupDir),
      (entries.foldl (removeIfOld currentSession) dir).lookup name =
        if name ∈ entries ∧ ∃ sessionId, fromStr u32Max name.toList = some sessionId ∧
            sessionId < currentSession
        then none else dir.lookup name
  | [], dir => by simp
  | entry :: entries, dir => by
    rw [List.foldl_cons, lookup_foldl_removeIfOld currentSession name entries, lookup_removeIfOld]
    by_cases hname : name = entry
    · subst hname
      by_cases hold : ∃ sessionId, fromStr u32Max name.toList = some sessionId ∧
          sessionId < currentSession <;> simp [hold]
    · simp [hname]

/-- `remove_old_backups` removes exactly the session directories whose names parse as a `u32`
before the current session, and leaves the others as they were. -/
theorem lookup_removeOldBackups (fs : FileSystem) (path : String) (currentSession : Nat)
    (name : String) :
    (backupDir (removeOldBackups fs (some path) currentSession) path).lookup name =
      if ∃ sessionId, fromStr u32Max name.toList = some sessionId ∧ sessionId < currentSession
      then none else (backupDir fs path).lookup name := by
  cases hdir : fs.lookup path with
  | none => simp [removeOldBackups, backupDir, hdir]
  | some dir =>
    simp only [removeOldBackups, hdir, backupDir, AList.lookup_insert, Option.getD_some]
    rw [lookup_foldl_removeIfOld]
    by_cases hold : ∃ sessionId, fromStr u32Max name.toList = some sessionId ∧
        sessionId < currentSession
    · by_cases hmem : name ∈ dir.keys
      · simp [hold, hmem]
      · -- a name the directory does not list has nothing to remove
        have hnone : dir.lookup name = none :=
          AList.lookup_eq_none.mpr (fun h => hmem (AList.mem_keys.mp h))
        simp [hold, hmem, hnone]
    · simp [hold]

/-- The removal at the start of a session leaves the directory of that session and of every
later one as it was. -/
theorem lookup_removeOldBackups_of_le {currentSession sessionId : Nat}
    (hle : currentSession ≤ sessionId) (fs : FileSystem) (path : String) :
    (backupDir (removeOldBackups fs (some path) currentSession) path).lookup
        (toString sessionId) =
      (backupDir fs path).lookup (toString sessionId) := by
  rw [lookup_removeOldBackups, if_neg]
  rintro ⟨id, hparse, hlt⟩
  -- the name of a session parses back as that session, or not at all
  rw [fromStr_toString] at hparse
  split at hparse
  · cases hparse
    omega
  · cases hparse

theorem lookup_removeOldBackups_current (fs : FileSystem) (path : String) (currentSession : Nat) :
    (backupDir (removeOldBackups fs (some path) currentSession) path).lookup
        (toString currentSession) =
      (backupDir fs path).lookup (toString currentSession) :=
  lookup_removeOldBackups_of_le le_rfl fs path

/-- The backup replays a session's history in order. Over every sequence of runs of a session
whose directory starts without files, the next rotation succeeds, creates the file numbered by
the count of the runs before it, which was not there, and loads what those runs wrote, in
order, for every count a `usize` holds; a rotation reports an incomplete backup exactly when
the parsed indexes are no permutation of `0..m`; and the removal removes exactly the session
directories whose names parse as a `u32` before the current session, so that the current
session's survives. -/
theorem backup_rotation_replays (fs : FileSystem) (path : String) (sessionId : Nat) :
    ((sessionDir fs path (toString sessionId)).keys = [] →
      ∀ written : List (List UInt8), written.length ≤ usizeMax →
        ∃ fs', runSession path sessionId fs written = .ok fs' ∧
          backupFileName written.length ∉ sessionDir fs' path (toString sessionId) ∧
          rotate fs' (some path) sessionId =
            .ok (⟨some ⟨path, toString sessionId, backupFileName written.length⟩,
                written.flatten⟩,
              setSessionDir fs' path (toString sessionId)
                ((sessionDir fs' path (toString sessionId)).insert
                  (backupFileName written.length) []))) ∧
    ((∃ backups, rotate fs (some path) sessionId = .error (.backupIncomplete backups)) ↔
      ∀ m, ¬ ((sessionDir fs path (toString sessionId)).keys.filterMap backupIdx).Perm
        (List.range m)) ∧
    ∀ currentSession,
      (∀ name, (backupDir (removeOldBackups fs (some path) currentSession) path).lookup name =
        if ∃ id, fromStr u32Max name.toList = some id ∧ id < currentSession then none
        else (backupDir fs path).lookup name) ∧
      (backupDir (removeOldBackups fs (some path) currentSession) path).lookup
          (toString currentSession) =
        (backupDir fs path).lookup (toString currentSession) := by
  refine ⟨fun hempty written hlen => ?_, rotate_incomplete_iff fs path sessionId,
    fun currentSession => ⟨lookup_removeOldBackups fs path currentSession,
      lookup_removeOldBackups_current fs path currentSession⟩⟩
  obtain ⟨fs', hrun, hr⟩ := runSession_replays written (replays_nil hempty) (by simpa using hlen)
  rw [List.nil_append] at hr
  exact ⟨fs', hrun, hr.next_fresh, rotate_of_replays hr hlen⟩

theorem backup_rotation_replays_after_two_runs :
    ∃ fs', runSession "backup" 7 ∅ [[1], [2, 3]] = .ok fs' ∧
      backupFileName 2 ∉ sessionDir fs' "backup" (toString 7) ∧
      rotate fs' (some "backup") 7 =
        .ok (⟨some ⟨"backup", toString 7, backupFileName 2⟩, [1, 2, 3]⟩,
          setSessionDir fs' "backup" (toString 7)
            ((sessionDir fs' "backup" (toString 7)).insert (backupFileName 2) [])) :=
  (backup_rotation_replays ∅ "backup" 7).1 rfl [[1], [2, 3]] (by decide)

end Selendra.Party

import Rocprofsys.TraceCache.Cacheable
import Rocprofsys.Utility.RangeItems

namespace Rocprofsys
namespace TraceCache

open Base
open Utility

/-! ## Names of cache files -/

def tmpDirectory : Bytes := "/tmp/".toUTF8.toList

/-- The two patterns of `get_cache_files`. -/
inductive CacheFileKind where
  | buffStorage
  | metadata
  deriving DecidableEq

namespace CacheFileKind

/-- What stands in front of the numbers. -/
def stem : CacheFileKind → Bytes
  | buffStorage => "buffered_storage_".toUTF8.toList
  | metadata => "metadata_".toUTF8.toList

def extension : CacheFileKind → Bytes
  | buffStorage => ".bin".toUTF8.toList
  | metadata => ".json".toUTF8.toList

/-- `std::regex_match` with the pattern: the two runs of digits it captures.  What follows a run
is no digit, so that a run is as long as it can be. -/
def regexMatch (kind : CacheFileKind) (filename : Bytes) : Option (Bytes × Bytes) :=
  if kind.stem.isPrefixOf filename then
    let rest := filename.drop kind.stem.length
    let parent := rest.takeWhile isDigit
    match rest.dropWhile isDigit with
    | 95 :: rest =>
      let pid := rest.takeWhile isDigit
      if parent ≠ [] ∧ pid ≠ [] ∧ rest.dropWhile isDigit = kind.extension then
        some (parent, pid)
      else none
    | _ => none
  else none

end CacheFileKind

/-! ## get_cache_files -/

/-- `cache_files_t`. -/
structure CacheFiles where
  buffStorage : Bytes
  metadata : Bytes

namespace CacheFiles

def empty : CacheFiles := ⟨[], []⟩

def path (files : CacheFiles) : CacheFileKind → Bytes
  | .buffStorage => files.buffStorage
  | .metadata => files.metadata

def setPath (files : CacheFiles) (path : Bytes) : CacheFileKind → CacheFiles
  | .buffStorage => { files with buffStorage := path }
  | .metadata => { files with metadata := path }

end CacheFiles

/-- `mapped_cache_files_t`. -/
abbrev MappedCacheFiles := Int32 → Option CacheFiles

/-- What is done for a name that matches. -/
def fillCache (rootPid : Int32) (kind : CacheFileKind) (filename : Bytes)
    (captures : Bytes × Bytes) (cacheMap : MappedCacheFiles) : Except Failure MappedCacheFiles :=
  (Utility.stoi captures.1).bind fun parentPid =>
    (Utility.stoi captures.2).bind fun pid =>
      if parentPid = rootPid then
        let files := (cacheMap pid).getD .empty
        .ok (Function.update cacheMap pid (some (files.setPath (tmpDirectory ++ filename) kind)))
      else .ok cacheMap

def parseAndFillCache (rootPid : Int32) (cacheMap : MappedCacheFiles) (filename : Bytes) :
    Except Failure MappedCacheFiles :=
  if filename = [] then .ok cacheMap
  else
    match CacheFileKind.buffStorage.regexMatch filename with
    | some captures => fillCache rootPid .buffStorage filename captures cacheMap
    | none =>
      match CacheFileKind.metadata.regexMatch filename with
      | some captures => fillCache rootPid .metadata filename captures cacheMap
      | none => .ok cacheMap

def getCacheFiles (rootPid : Int32) (files : List Bytes) : Except Failure MappedCacheFiles :=
  if files = [] then .ok fun _ => none
  else files.foldlM (parseAndFillCache rootPid) fun _ => none

/-! ## What the result is for -/

/-- A name of the pattern. -/
def CacheFileKind.name (kind : CacheFileKind) (parent pid : Digits) : Bytes :=
  kind.stem ++ (parent.bytes ++ 95 :: (pid.bytes ++ kind.extension))

/-- A name of the pattern with this process and this parent. -/
def Names (kind : CacheFileKind) (rootPid pid : Int32) (filename : Bytes) : Prop :=
  ∃ parent child : Digits, filename = kind.name parent child ∧
    (parent.value : ℤ) = rootPid.toInt ∧ (child.value : ℤ) = pid.toInt

/-- The path that a process is mapped to. -/
def MappedCacheFiles.path (cacheMap : MappedCacheFiles) (kind : CacheFileKind) (pid : Int32) :
    Option Bytes :=
  ((cacheMap pid).map (·.path kind)).filter (· ≠ [])

/-- A process is mapped to a path exactly if its file is listed, and the path is that of such a
file. -/
structure Collects (rootPid : Int32) (files : List Bytes) (cacheMap : MappedCacheFiles) :
    Prop where
  mapped : ∀ kind pid, (∃ path, cacheMap.path kind pid = some path) ↔
    ∃ filename ∈ files, Names kind rootPid pid filename
  listed : ∀ kind pid path, cacheMap.path kind pid = some path →
    ∃ filename ∈ files, Names kind rootPid pid filename ∧ path = tmpDirectory ++ filename

/-- A name of either pattern has numbers that are `int`s. -/
def NumbersFit (filename : Bytes) : Prop :=
  ∀ kind : CacheFileKind, ∀ parent child : Digits, filename = kind.name parent child →
    parent.value < 2 ^ 31 ∧ child.value < 2 ^ 31

variable {kind kind' : CacheFileKind} {filename p q : Bytes} {parent child parent' child' : Digits}
  {rootPid pid : Int32} {cacheMap cacheMap' : MappedCacheFiles} {files : List Bytes}

/-! ## The patterns -/

theorem isDigit_extension (kind : CacheFileKind) :
    ∀ b ∈ kind.extension.head?, isDigit b = false := by
  cases kind with
  | buffStorage => decide +kernel
  | metadata => decide +kernel

theorem regexMatch_name (kind : CacheFileKind) (parent child : Digits) :
    kind.regexMatch (kind.name parent child) = some (parent.bytes, child.bytes) := by
  have hunderscore : ∀ b ∈ (95 :: (child.bytes ++ kind.extension)).head?, isDigit b = false := by
    intro b hb
    cases hb
    decide
  obtain ⟨htake, hdrop⟩ := takeWhile_isDigit parent.areDigits hunderscore
  obtain ⟨htake', hdrop'⟩ := takeWhile_isDigit child.areDigits (isDigit_extension kind)
  have hstem : kind.stem.isPrefixOf (kind.name parent child) = true :=
    List.isPrefixOf_iff_prefix.mpr (List.prefix_append _ _)
  have hrest : (kind.name parent child).drop kind.stem.length =
      parent.bytes ++ 95 :: (child.bytes ++ kind.extension) := List.drop_left
  unfold CacheFileKind.regexMatch
  simp only [hstem, if_true, hrest, htake, hdrop, htake', hdrop']
  exact if_pos ⟨parent.ne_nil, child.ne_nil, trivial⟩

/-- A name matches as the pattern says. -/
theorem eq_name_of_regexMatch (h : kind.regexMatch filename = some (p, q)) :
    ∃ parent child : Digits, parent.bytes = p ∧ child.bytes = q ∧
      filename = kind.name parent child := by
  unfold CacheFileKind.regexMatch at h
  split at h
  · rename_i hstem
    obtain ⟨rest, hrest⟩ := List.isPrefixOf_iff_prefix.mp hstem
    rw [← hrest, List.drop_left] at h
    dsimp only at h
    split at h
    · rename_i rest' hdrop
      split at h
      · rename_i hcond
        obtain ⟨hparent, hpid, hextension⟩ := hcond
        cases h
        have hdigits : ∀ bs : Bytes, ∀ b ∈ bs.takeWhile isDigit, isDigit b = true :=
          fun bs b hb => List.mem_takeWhile_imp hb
        refine ⟨⟨_, hparent, hdigits rest⟩, ⟨_, hpid, hdigits rest'⟩, rfl, rfl, ?_⟩
        rw [CacheFileKind.name, ← hextension, List.takeWhile_append_dropWhile, ← hdrop,
          List.takeWhile_append_dropWhile, hrest]
      · cases h
    · cases h
  · cases h

/-- No name matches both patterns. -/
theorem kind_eq_of_name (h : kind.name parent child = kind'.name parent' child') :
    kind = kind' := by
  have hhead := congrArg List.head? h
  have hbuff : ∀ parent child, (CacheFileKind.buffStorage.name parent child).head? = some 98 := by
    intro parent child
    have hstem : CacheFileKind.buffStorage.stem.head? = some 98 := by decide +kernel
    rw [CacheFileKind.name, List.head?_append, hstem, Option.some_or]
  have hmeta : ∀ parent child, (CacheFileKind.metadata.name parent child).head? = some 109 := by
    intro parent child
    have hstem : CacheFileKind.metadata.stem.head? = some 109 := by decide +kernel
    rw [CacheFileKind.name, List.head?_append, hstem, Option.some_or]
  cases kind with
  | buffStorage =>
    cases kind' with
    | buffStorage => rfl
    | metadata =>
      rw [hbuff, hmeta] at hhead
      cases hhead
  | metadata =>
    cases kind' with
    | buffStorage =>
      rw [hbuff, hmeta] at hhead
      cases hhead
    | metadata => rfl

theorem name_inj (h : kind.name parent child = kind'.name parent' child') :
    kind = kind' ∧ parent.value = parent'.value ∧ child.value = child'.value := by
  have hkind := kind_eq_of_name h
  subst hkind
  have hmatch := regexMatch_name kind parent child
  rw [h, regexMatch_name] at hmatch
  obtain ⟨hparent, hchild⟩ := Prod.mk.inj (Option.some.inj hmatch)
  exact ⟨rfl, congrArg digitsValue hparent.symm, congrArg digitsValue hchild.symm⟩

theorem name_ne_nil (kind : CacheFileKind) (parent child : Digits) :
    kind.name parent child ≠ [] := by
  intro hnil
  have hlength := congrArg List.length hnil
  simp [CacheFileKind.name] at hlength

theorem numbersFit_name_iff :
    NumbersFit (kind.name parent child) ↔ parent.value < 2 ^ 31 ∧ child.value < 2 ^ 31 := by
  constructor
  · intro h
    exact h kind parent child rfl
  · intro h kind' parent' child' hname
    obtain ⟨-, hparent, hchild⟩ := name_inj hname
    rwa [← hparent, ← hchild]

/-! ## One name -/

theorem toInt_ofNat_eq_iff {n : Nat} (hn : n < 2 ^ 31) (x : Int32) :
    Int32.ofNat n = x ↔ (n : ℤ) = x.toInt := by
  have hvalue : (Int32.ofNat n).toInt = n := Int32.toInt_ofNat_of_lt hn
  rw [← Int32.toInt_inj, hvalue]

theorem names_name_iff (hchild : child.value < 2 ^ 31) :
    Names kind' rootPid pid (kind.name parent child) ↔
      kind' = kind ∧ (parent.value : ℤ) = rootPid.toInt ∧ Int32.ofNat child.value = pid := by
  rw [toInt_ofNat_eq_iff hchild]
  constructor
  · intro ⟨parent', child', hname, hparent, hpid⟩
    obtain ⟨rfl, hparent', hchild'⟩ := name_inj hname
    rw [hparent', hchild']
    exact ⟨rfl, hparent, hpid⟩
  · intro ⟨hkind, hparent, hpid⟩
    exact ⟨parent, child, by rw [hkind], hparent, hpid⟩

/-- A name that matches is handled by its branch. -/
theorem parseAndFillCache_name (rootPid : Int32) (cacheMap : MappedCacheFiles)
    (kind : CacheFileKind) (parent child : Digits) :
    parseAndFillCache rootPid cacheMap (kind.name parent child) =
      fillCache rootPid kind (kind.name parent child) (parent.bytes, child.bytes) cacheMap := by
  unfold parseAndFillCache
  rw [if_neg (name_ne_nil kind parent child)]
  cases kind with
  | buffStorage => rw [regexMatch_name]
  | metadata =>
    have hother : CacheFileKind.buffStorage.regexMatch
        (CacheFileKind.metadata.name parent child) = none := by
      rw [Option.eq_none_iff_forall_not_mem]
      intro captures hcaptures
      obtain ⟨parent', child', -, -, hname⟩ :=
        @eq_name_of_regexMatch _ _ captures.1 captures.2 hcaptures
      cases kind_eq_of_name hname
    rw [hother, regexMatch_name]

/-- Any other name is ignored. -/
theorem parseAndFillCache_of_no_name
    (h : ∀ kind : CacheFileKind, ∀ parent child, filename ≠ kind.name parent child) :
    parseAndFillCache rootPid cacheMap filename = .ok cacheMap := by
  have hnone : ∀ kind : CacheFileKind, kind.regexMatch filename = none := by
    intro kind
    rw [Option.eq_none_iff_forall_not_mem]
    intro captures hcaptures
    obtain ⟨parent, child, -, -, hname⟩ :=
      @eq_name_of_regexMatch _ _ captures.1 captures.2 hcaptures
    exact h kind parent child hname
  unfold parseAndFillCache
  rw [hnone, hnone]
  split <;> rfl

theorem path_update (cacheMap : MappedCacheFiles) (kind kind' : CacheFileKind) (pid pid' : Int32)
    {path : Bytes} (hpath : path ≠ []) :
    MappedCacheFiles.path (Function.update cacheMap pid
        (some (((cacheMap pid).getD .empty).setPath path kind))) kind' pid' =
      if kind' = kind ∧ pid = pid' then some path else cacheMap.path kind' pid' := by
  unfold MappedCacheFiles.path
  by_cases hpid : pid = pid'
  · subst hpid
    rw [Function.update_self]
    cases hfiles : cacheMap pid with
    | none => cases kind <;> cases kind' <;> simp [CacheFiles.path, CacheFiles.setPath,
        CacheFiles.empty, hpath]
    | some files => cases kind <;> cases kind' <;> simp [CacheFiles.path, CacheFiles.setPath, hpath]
  · have hpid' : pid' ≠ pid := fun h => hpid h.symm
    rw [Function.update_of_ne hpid']
    simp [hpid]

theorem append_ne_nil (filename : Bytes) : tmpDirectory ++ filename ≠ [] := by
  have htmp : tmpDirectory ≠ [] := by decide +kernel
  exact List.append_ne_nil_of_left_ne_nil htmp filename

/-- Numbers that are `int`s enter the name where its process has the root as parent. -/
theorem fillCache_name (rootPid : Int32) (cacheMap : MappedCacheFiles) (kind : CacheFileKind)
    (hparent : parent.value < 2 ^ 31) (hchild : child.value < 2 ^ 31) :
    ∃ cacheMap', fillCache rootPid kind (kind.name parent child) (parent.bytes, child.bytes)
        cacheMap = .ok cacheMap' ∧
      ∀ kind' pid, (Names kind' rootPid pid (kind.name parent child) ∧
          cacheMap'.path kind' pid = some (tmpDirectory ++ kind.name parent child)) ∨
        (¬ Names kind' rootPid pid (kind.name parent child) ∧
          cacheMap'.path kind' pid = cacheMap.path kind' pid) := by
  have hroot := toInt_ofNat_eq_iff hparent rootPid
  rw [fillCache, stoi_digits, stoi_digits, if_pos hparent, if_pos hchild]
  show ∃ cacheMap', (if Int32.ofNat parent.value = rootPid then _ else _) = _ ∧ _
  by_cases hmine : Int32.ofNat parent.value = rootPid
  · rw [if_pos hmine]
    refine ⟨_, rfl, fun kind' pid => ?_⟩
    rw [names_name_iff hchild, path_update _ _ _ _ _ (append_ne_nil _)]
    by_cases hhere : kind' = kind ∧ Int32.ofNat child.value = pid
    · exact Or.inl ⟨⟨hhere.1, hroot.mp hmine, hhere.2⟩, if_pos hhere⟩
    · exact Or.inr ⟨fun h => hhere ⟨h.1, h.2.2⟩, if_neg hhere⟩
  · rw [if_neg hmine]
    refine ⟨cacheMap, rfl, fun kind' pid => Or.inr ⟨fun h => ?_, rfl⟩⟩
    rw [names_name_iff hchild] at h
    exact hmine (hroot.mpr h.2.1)

/-- What one name does to the map: it is refused, enters one path, or changes none. -/
theorem parseAndFillCache_eq (rootPid : Int32) (cacheMap : MappedCacheFiles) (filename : Bytes) :
    (¬ NumbersFit filename ∧
        parseAndFillCache rootPid cacheMap filename = .error (.outOfRange "stoi")) ∨
      (NumbersFit filename ∧ ∃ cacheMap',
        parseAndFillCache rootPid cacheMap filename = .ok cacheMap' ∧
        ∀ kind pid, (Names kind rootPid pid filename ∧
            cacheMap'.path kind pid = some (tmpDirectory ++ filename)) ∨
          (¬ Names kind rootPid pid filename ∧
            cacheMap'.path kind pid = cacheMap.path kind pid)) := by
  by_cases hname : ∃ kind : CacheFileKind, ∃ parent child, filename = kind.name parent child
  · obtain ⟨kind, parent, child, rfl⟩ := hname
    rw [parseAndFillCache_name, numbersFit_name_iff]
    by_cases hparent : parent.value < 2 ^ 31
    · by_cases hchild : child.value < 2 ^ 31
      · exact Or.inr ⟨⟨hparent, hchild⟩, fillCache_name rootPid cacheMap kind hparent hchild⟩
      · refine Or.inl ⟨fun h => hchild h.2, ?_⟩
        rw [fillCache, stoi_digits, stoi_digits, if_pos hparent, if_neg hchild]
        rfl
    · refine Or.inl ⟨fun h => hparent h.1, ?_⟩
      rw [fillCache, stoi_digits, if_neg hparent]
      rfl
  · have hnone : ∀ kind : CacheFileKind, ∀ parent child, filename ≠ kind.name parent child :=
      fun kind parent child h => hname ⟨kind, parent, child, h⟩
    refine Or.inr ⟨fun kind parent child h => absurd h (hnone kind parent child), cacheMap,
      parseAndFillCache_of_no_name hnone, fun kind pid => Or.inr ⟨?_, rfl⟩⟩
    intro ⟨parent, child, h, _⟩
    exact hnone kind parent child h

/-! ## The whole list -/

/-- The paths after the names are those of listed names, and before them where there is
none. -/
def Extends (rootPid : Int32) (files : List Bytes) (cacheMap cacheMap' : MappedCacheFiles) : Prop :=
  ∀ kind pid,
    (∃ filename ∈ files, Names kind rootPid pid filename ∧
      cacheMap'.path kind pid = some (tmpDirectory ++ filename)) ∨
    ((∀ filename ∈ files, ¬ Names kind rootPid pid filename) ∧
      cacheMap'.path kind pid = cacheMap.path kind pid)

theorem foldlM_parseAndFillCache (rootPid : Int32) (files : List Bytes)
    (cacheMap : MappedCacheFiles) :
    ((∃ cacheMap', files.foldlM (parseAndFillCache rootPid) cacheMap = .ok cacheMap') ↔
      ∀ filename ∈ files, NumbersFit filename) ∧
    ∀ cacheMap', files.foldlM (parseAndFillCache rootPid) cacheMap = .ok cacheMap' →
      Extends rootPid files cacheMap cacheMap' := by
  induction files generalizing cacheMap with
  | nil =>
    refine ⟨⟨fun _ filename h => absurd h List.not_mem_nil, fun _ => ⟨cacheMap, rfl⟩⟩, ?_⟩
    intro cacheMap' h kind pid
    cases h
    exact Or.inr ⟨fun filename h => absurd h List.not_mem_nil, rfl⟩
  | cons filename files ih =>
    rw [List.foldlM_cons, List.forall_mem_cons]
    rcases parseAndFillCache_eq rootPid cacheMap filename with ⟨hunfit, herror⟩ |
      ⟨hfits, cacheMap₁, hok, hpaths⟩
    · rw [herror]
      constructor
      · constructor
        · intro ⟨cacheMap', h⟩
          cases h
        · intro h
          exact absurd h.1 hunfit
      · intro cacheMap' h
        cases h
    · obtain ⟨hreturns, hextends⟩ := ih cacheMap₁
      rw [hok]
      refine ⟨hreturns.trans (and_iff_right hfits).symm, fun cacheMap' h kind pid => ?_⟩
      rcases hextends cacheMap' h kind pid with ⟨other, hother, hnames, hpath⟩ | ⟨hnone, hpath⟩
      · exact Or.inl ⟨other, List.mem_cons_of_mem filename hother, hnames, hpath⟩
      · rcases hpaths kind pid with ⟨hnames, hhere⟩ | ⟨hnot, hbefore⟩
        · exact Or.inl ⟨filename, List.mem_cons_self, hnames, hpath.trans hhere⟩
        · exact Or.inr ⟨List.forall_mem_cons.mpr ⟨hnot, hnone⟩, hpath.trans hbefore⟩

theorem Extends.collects (h : Extends rootPid files (fun _ => none) cacheMap) :
    Collects rootPid files cacheMap := by
  have hempty : ∀ kind pid, MappedCacheFiles.path (fun _ => none) kind pid = none :=
    fun _ _ => rfl
  constructor
  · intro kind pid
    rcases h kind pid with ⟨filename, hmem, hnames, hpath⟩ | ⟨hnone, hpath⟩
    · exact ⟨fun _ => ⟨filename, hmem, hnames⟩, fun _ => ⟨_, hpath⟩⟩
    · rw [hpath, hempty]
      constructor
      · intro ⟨path, hsome⟩
        cases hsome
      · intro ⟨filename, hmem, hnames⟩
        exact absurd hnames (hnone filename hmem)
  · intro kind pid path hsome
    rcases h kind pid with ⟨filename, hmem, hnames, hpath⟩ | ⟨-, hpath⟩
    · rw [hpath] at hsome
      exact ⟨filename, hmem, hnames, (Option.some.inj hsome).symm⟩
    · rw [hpath, hempty] at hsome
      cases hsome

/-- `get_cache_files` returns the files of the root exactly if no listed name of a cache file,
whatever root it is of, has a number that is no `int`. -/
theorem getCacheFiles_collects_iff (rootPid : Int32) (files : List Bytes) :
    (∃ cacheMap, getCacheFiles rootPid files = .ok cacheMap ∧
        Collects rootPid files cacheMap) ↔
      ∀ filename ∈ files, NumbersFit filename := by
  obtain ⟨hreturns, hextends⟩ := foldlM_parseAndFillCache rootPid files fun _ => none
  have heq : getCacheFiles rootPid files =
      files.foldlM (parseAndFillCache rootPid) fun _ => none := by
    unfold getCacheFiles
    split
    · rename_i hnil
      rw [hnil]
      rfl
    · rfl
  rw [heq, ← hreturns]
  constructor
  · intro ⟨cacheMap, hok, _⟩
    exact ⟨cacheMap, hok⟩
  · intro ⟨cacheMap, hok⟩
    exact ⟨cacheMap, hok, (hextends cacheMap hok).collects⟩

/-- A stray metadata file of root 1 with a number of ten digits. -/
theorem not_collects_stray :
    ¬ ∃ cacheMap, getCacheFiles 7 ["metadata_1_9999999999.json".toUTF8.toList] = .ok cacheMap ∧
      Collects 7 ["metadata_1_9999999999.json".toUTF8.toList] cacheMap := by
  intro ⟨cacheMap, hok, _⟩
  have herror : (getCacheFiles 7 ["metadata_1_9999999999.json".toUTF8.toList]).isOk = false := by
    decide +kernel
  rw [hok] at herror
  cases herror

end TraceCache
end Rocprofsys

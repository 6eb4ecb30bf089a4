import Rocprofsys.Base.KeyedSet

namespace Rocprofsys
namespace Base

/-! ## Files by their paths -/

/-- The contents of files.  The order is that of a listing. -/
abbrev Files (π β : Type) := KeyedSet (Prod.fst : π × List β → π)

namespace Files

variable {π β : Type} [DecidableEq π]

def paths (files : Files π β) : List π := files.entries.map Prod.fst

def read (files : Files π β) (path : π) : Option (List β) :=
  (files.entries.find? fun file => file.1 == path).map Prod.snd

def remove (files : Files π β) (path : π) : Files π β :=
  ⟨files.entries.filter fun file => file.1 != path,
    files.nodup.sublist ((List.filter_sublist).map Prod.fst)⟩

/-- Of a file that is opened for output, or written from the start. -/
def write (files : Files π β) (path : π) (content : List β) : Files π β :=
  (files.remove path).add (path, content)

/-- Through a stream that was opened before: nothing comes of it once the file is removed. -/
def append (files : Files π β) (path : π) (bytes : List β) : Files π β :=
  match files.read path with
  | some content => files.write path (content ++ bytes)
  | none => files

variable (files : Files π β) (path other : π) (content bytes : List β)

theorem read_remove :
    (files.remove path).read other = if other = path then none else files.read other := by
  unfold read remove
  rw [List.find?_filter]
  by_cases h : other = path
  · rw [if_pos h, h, Option.map_eq_none_iff, List.find?_eq_none]
    intro file _
    simp
  · rw [if_neg h]
    congr 2
    funext file
    by_cases hfile : file.1 = other
    · simp [hfile, h]
    · simp [hfile]

theorem mem_paths_iff : path ∈ files.paths ↔ (files.read path).isSome = true := by
  simp only [paths, read, Option.isSome_map, List.find?_isSome, beq_iff_eq, List.mem_map]

theorem not_mem_paths_remove : path ∉ (files.remove path).paths := by
  rw [mem_paths_iff, read_remove, if_pos rfl]
  exact Bool.false_ne_true

theorem read_write :
    (files.write path content).read other = if other = path then some content
      else files.read other := by
  have hentries : (files.write path content).entries =
      (files.remove path).entries ++ [(path, content)] :=
    KeyedSet.entries_add (files.not_mem_paths_remove path)
  have hold := files.read_remove path other
  unfold read at hold ⊢
  rw [hentries, List.find?_append, Option.map_or, hold]
  by_cases h : other = path
  · simp [h]
  · have hne : path ≠ other := fun heq => h heq.symm
    simp [h, hne]

theorem read_append :
    (files.append path bytes).read other =
      if other = path then (files.read path).map (· ++ bytes) else files.read other := by
  unfold append
  cases hread : files.read path with
  | none =>
    by_cases h : other = path
    · rw [if_pos h, h, hread]
      rfl
    · rw [if_neg h]
  | some content =>
    dsimp only
    rw [read_write]
    rfl

end Files

end Base
end Rocprofsys

import Mathlib
import Scriptlet.FileTree

/-!
# Files that are written and read again

A path leads to a place: through directories that are there, to a file or to a vacant name.  Putting
a file in that place changes nothing on the way to it, so the same path leads to the file
afterwards.  This holds of paths as they are written out, which never end in a slash; a path that
does leads to a directory only.

## What is here

* `Path.Proper`, `Path.isPart_last_text` — the written form of a path ends in its last part.
* `FileTree.set` — a tree with one more file, or with another content for a file.
* `FileTree.Leads t path names` — **the path leads to a place for a file**.
* `FileTree.find_set` — afterwards it leads to the file that was put there.
* `FileTree.get?_set` — all other files are as they were.
-/

set_option autoImplicit false
namespace Scriptlet

/-! ## The written form of a path -/

namespace Path

/-- A path as reading one gives it: its parts say something and have no slash in them, and there are
at most two leading slashes. -/
structure Proper (p : Path) : Prop where
  isPart : ∀ part ∈ p.parts, isPart part = true
  slashless : ∀ part ∈ p.parts, '/' ∉ part.toList
  slashes : p.slashes ≤ 2

theorem not_mem_of_mem_splitOn {a : Char} {cs piece : List Char} (h : piece ∈ cs.splitOn a) :
    a ∉ piece := by
  induction cs generalizing piece with
  | nil =>
    rw [List.splitOn_nil, List.mem_singleton] at h
    exact h ▸ List.not_mem_nil
  | cons c cs ih =>
    obtain ⟨first, rest, hcs⟩ := List.exists_cons_of_ne_nil (List.splitOn_ne_nil a cs)
    rw [List.splitOn_cons_eq_if_modifyHead, hcs] at h
    rw [hcs] at ih
    by_cases hc : c = a
    · rw [if_pos (beq_iff_eq.2 hc)] at h
      rcases List.mem_cons.1 h with rfl | h
      · exact List.not_mem_nil
      · exact ih h
    · rw [if_neg (by simpa using hc), List.modifyHead_cons] at h
      rcases List.mem_cons.1 h with rfl | h
      · rw [List.mem_cons, not_or]
        exact ⟨Ne.symm hc, ih List.mem_cons_self⟩
      · exact ih (List.mem_cons_of_mem _ h)

theorem proper_ofString (text : String) : (ofString text).Proper where
  isPart _ hpart := (List.mem_filter.1 hpart).2
  slashless part hpart := by
    obtain ⟨cs, hcs, rfl⟩ := List.mem_map.1 (List.mem_filter.1 hpart).1
    rw [String.toList_ofList]
    exact not_mem_of_mem_splitOn hcs
  slashes := by
    rw [ofString]
    dsimp only
    split <;> omega

theorem isPart_append {name ending : String} (hname : name ≠ "") (hending : ending ≠ "") :
    isPart (name ++ ending) = true := by
  have hdot : name ++ ending ≠ "." := by
    intro h
    have hlist : name.toList ++ ending.toList = ".".toList := by rw [← String.toList_append, h]
    rcases List.append_eq_singleton_iff.1 hlist with ⟨h, -⟩ | ⟨-, h⟩
    · exact hname (String.toList_eq_nil_iff.1 h)
    · exact hending (String.toList_eq_nil_iff.1 h)
  simp [isPart, hdot, hname]

/-- Compiled code goes to a path as reading one gives it. -/
theorem Proper.compiled {p out : Path} (hp : p.Proper) (h : p.compiled = .ok out) : out.Proper := by
  rw [Path.compiled] at h
  split at h
  case h_2 => exact nomatch h
  rename_i name hname
  obtain rfl := Except.ok.inj h
  have hmem : name ∈ p.parts := List.mem_of_getLast? hname
  have hne : name ≠ "" := by
    have := hp.isPart name hmem
    simp only [Path.isPart, Bool.and_eq_true, decide_eq_true_eq] at this
    exact this.1
  have hpart : Path.isPart (compiledName name) = true ∧ '/' ∉ (compiledName name).toList := by
    rw [compiledName]
    split <;>
    · refine ⟨isPart_append hne (by decide), ?_⟩
      rw [String.toList_append, List.mem_append, not_or]
      exact ⟨hp.slashless name hmem, by decide⟩
  refine ⟨fun part hmem => ?_, fun part hmem => ?_, hp.slashes⟩
  · rcases List.mem_append.1 hmem with hmem | hmem
    · exact hp.isPart part (List.mem_of_mem_dropLast hmem)
    · exact List.mem_singleton.1 hmem ▸ hpart.1
  · rcases List.mem_append.1 hmem with hmem | hmem
    · exact hp.slashless part (List.mem_of_mem_dropLast hmem)
    · exact List.mem_singleton.1 hmem ▸ hpart.2

theorem splitOn_replicate_append (n : Nat) (cs : List Char) :
    (List.replicate n '/' ++ cs).splitOn '/' = List.replicate n [] ++ cs.splitOn '/' := by
  induction n with
  | zero => rfl
  | succ n ih =>
    rw [List.replicate_succ, List.cons_append, List.splitOn_cons_eq_if_modifyHead,
      if_pos (beq_self_eq_true '/'), ih, List.replicate_succ, List.cons_append]

theorem pieces_text {p : Path} (hp : p.Proper) (hne : p.parts ≠ []) :
    pieces p.text = List.replicate p.slashes "" ++ p.parts := by
  have htext : p.text.toList =
      List.replicate p.slashes '/' ++ ['/'].intercalate (p.parts.map String.toList) := by
    rw [text, if_neg (by simp [hne]), String.toList_append, String.toList_ofList,
      String.toList_intercalate]
    rfl
  have hsplit : (['/'].intercalate (p.parts.map String.toList)).splitOn '/' =
      p.parts.map String.toList := by
    refine List.splitOn_intercalate '/' ?_ (by simpa using hne)
    rw [List.forall_mem_map]
    exact hp.slashless
  rw [pieces, htext, splitOn_replicate_append, hsplit, List.map_append, List.map_replicate,
    List.map_map]
  simp

/-- The written form of a path ends in its last part. -/
theorem isPart_last_text {p : Path} (hp : p.Proper) (hne : p.parts ≠ []) :
    (pieces p.text).getLast?.all isPart = true := by
  obtain ⟨last, hlast⟩ := Option.ne_none_iff_exists'.1 (mt List.getLast?_eq_none_iff.1 hne)
  rw [pieces_text hp hne, List.getLast?_append_of_ne_nil _ hne, hlast]
  exact hp.isPart last (List.mem_of_getLast? hlast)

end Path

namespace FileTree

variable {t : FileTree} {names other : List String} {content content' : ByteArray} {path : String}

/-! ## Changing one file -/

/-- The tree with a content for the file of some names. -/
def set (t : FileTree) (names : List String) (content : ByteArray) : FileTree :=
  ⟨insert t.files names content⟩

theorem lookup_insert (files : List (List String × ByteArray)) (names other : List String)
    (content : ByteArray) :
    (insert files names content).lookup other =
      if other = names then some content else files.lookup other := by
  induction files with
  | nil =>
    by_cases hother : other = names
    · simp [insert, hother]
    · simp [insert, List.lookup_cons, hother, beq_eq_false_iff_ne.2 hother]
  | cons f files ih =>
    obtain ⟨n, c⟩ := f
    rw [insert]
    by_cases hn : n = names
    · rw [if_pos hn, hn]
      by_cases hother : other = names
      · simp [hother]
      · simp [List.lookup_cons, hother, beq_eq_false_iff_ne.2 hother]
    · rw [if_neg hn]
      by_cases hother : other = n
      · simp [hother, hn]
      · simp [List.lookup_cons, beq_eq_false_iff_ne.2 hother, ih]

/-- One file has the new content, and **all others are as they were**. -/
theorem get?_set (t : FileTree) (names other : List String) (content : ByteArray) :
    (t.set names content).get? other = if other = names then some content else t.get? other :=
  lookup_insert t.files names other content

theorem insert_insert (files : List (List String × ByteArray)) (names : List String)
    (content content' : ByteArray) :
    insert (insert files names content) names content' = insert files names content' := by
  induction files with
  | nil => simp [insert]
  | cons f files ih =>
    obtain ⟨n, c⟩ := f
    by_cases hn : n = names
    · simp [insert, hn]
    · simp [insert, hn, ih]

/-- What is put last counts. -/
theorem set_set (t : FileTree) (names : List String) (content content' : ByteArray) :
    (t.set names content).set names content' = t.set names content' :=
  congrArg mk (insert_insert t.files names content content')

theorem any_insert (p : List String → Bool) (files : List (List String × ByteArray))
    (names : List String) (content : ByteArray) :
    (insert files names content).any (fun f => p f.1) =
      (files.any (fun f => p f.1) || p names) := by
  induction files with
  | nil => simp [insert]
  | cons f files ih =>
    obtain ⟨n, c⟩ := f
    by_cases hn : n = names
    · cases hp : p names <;> simp [insert, hn, hp]
    · simp only [insert, hn, if_false, List.any_cons, ih, Bool.or_assoc]

/-- A new file makes directories only of the names that lead to it. -/
theorem hasDirectory_set (t : FileTree) (names other : List String) (content : ByteArray) :
    (t.set names content).hasDirectory other =
      (t.hasDirectory other || (other.length < names.length && other.isPrefixOf names)) := by
  rw [hasDirectory, hasDirectory, Bool.or_assoc, set]
  congr 1
  exact any_insert (fun n => other.length < n.length && other.isPrefixOf n) t.files names content

theorem hasDirectory_set_self (t : FileTree) (names : List String) (content : ByteArray) :
    (t.set names content).hasDirectory names = t.hasDirectory names := by
  rw [hasDirectory_set]
  simp

theorem hasDirectory_set_of_true (h : t.hasDirectory other = true) :
    (t.set names content).hasDirectory other = true := by
  rw [hasDirectory_set, h, Bool.true_or]

/-! ## Where a path leads -/

theorem outside_eq_ok {parts : List String} {place : Place} (h : outside parts = .ok place) :
    place = .directory := by
  induction parts with
  | nil => exact (Except.ok.inj h).symm
  | cons part rest ih =>
    rw [outside] at h
    split at h
    · exact ih h
    · split at h <;> exact nomatch h

/-- A place for the file of some names. -/
inductive Place.IsFor (names : List String) : Place → Prop where
  | file (content : ByteArray) : IsFor names (.file names content)
  | vacant : IsFor names (.vacant names)

/-- The path leads to a place for the file of some names. -/
def Leads (t : FileTree) (path : String) (names : List String) : Prop :=
  ∃ place : Place, place.IsFor names ∧ t.find path = .ok place

/-- What is put in a place is on the way that led to the place. -/
theorem walk_set {here parts : List String} {place : Place} (hplace : place.IsFor names)
    (h : t.walk false here parts = .ok place) :
    (t.set names content).walk false here parts = .ok (.file names content) := by
  induction parts generalizing here with
  | nil =>
    rw [walk, Except.ok.injEq] at h
    subst h
    exact nomatch hplace
  | cons part rest ih =>
    rw [walk] at h ⊢
    by_cases hup : part = ".."
    · rw [if_pos hup] at h ⊢
      by_cases hhere : here.isEmpty = true
      · rw [if_pos hhere] at h
        rw [outside_eq_ok h] at hplace
        exact nomatch hplace
      · rw [if_neg hhere] at h ⊢
        exact ih h
    rw [if_neg hup] at h ⊢
    by_cases hlong : nameBytes < part.utf8ByteSize
    · rw [if_pos hlong] at h
      exact nomatch h
    rw [if_neg hlong] at h ⊢
    dsimp only at h ⊢
    by_cases hdir : t.hasDirectory (here ++ [part]) = true
    · rw [if_pos hdir] at h
      rw [if_pos (hasDirectory_set_of_true hdir)]
      exact ih h
    rw [if_neg hdir] at h
    -- the walk ends here, so the names are those of this place
    have hend : rest.isEmpty = true ∧ names = here ++ [part] := by
      cases hget : t.get? (here ++ [part]) with
      | some c =>
        rw [hget] at h
        by_cases hrest : rest.isEmpty = true
        · simp only [hrest, Bool.not_false, Bool.and_true, if_true, Except.ok.injEq] at h
          subst h
          cases hplace
          exact ⟨hrest, rfl⟩
        · simp [hrest] at h
      | none =>
        rw [hget] at h
        by_cases hrest : rest.isEmpty = true
        · simp only [hrest, if_true, Except.ok.injEq] at h
          subst h
          cases hplace
          exact ⟨hrest, rfl⟩
        · simp [hrest] at h
    obtain ⟨hrest, rfl⟩ := hend
    rw [hasDirectory_set_self, if_neg hdir, get?_set, if_pos rfl]
    simp [hrest]

/-- **A path leads to what was put in the place it led to**, if it does not end in a slash. -/
theorem find_set (hpath : (Path.pieces path).getLast?.all Path.isPart = true)
    (h : t.Leads path names) : (t.set names content).find path = .ok (.file names content) := by
  obtain ⟨place, hplace, h⟩ := h
  rw [find] at h ⊢
  by_cases hnull : path.toList.contains '\x00' = true
  · rw [if_pos hnull] at h
    exact nomatch h
  rw [if_neg hnull] at h ⊢
  by_cases hempty : path = ""
  · rw [if_pos hempty] at h
    exact nomatch h
  rw [if_neg hempty] at h ⊢
  by_cases hlong : pathBytes < path.utf8ByteSize
  · rw [if_pos hlong] at h
    exact nomatch h
  rw [if_neg hlong] at h ⊢
  dsimp only at h ⊢
  by_cases hslashes : (Path.ofString path).slashes ≠ 0
  · rw [if_pos hslashes] at h
    rw [outside_eq_ok h] at hplace
    exact nomatch hplace
  rw [if_neg hslashes, hpath] at h ⊢
  exact walk_set hplace h

theorem Leads.set (hpath : (Path.pieces path).getLast?.all Path.isPart = true)
    (h : t.Leads path names) : (t.set names content).Leads path names :=
  ⟨_, .file content, find_set hpath h⟩

theorem Leads.put (h : t.Leads path names) : t.put path content = .ok (t.set names content) := by
  obtain ⟨place, hplace, h⟩ := h
  rw [FileTree.put, h]
  cases hplace <;> rfl

theorem Leads.read_set (hpath : (Path.pieces path).getLast?.all Path.isPart = true)
    (h : t.Leads path names) : (t.set names content).read path = .ok content := by
  rw [read, find_set hpath h]

/-! ## Paths without parts -/

/-- A path without parts leads to a directory. -/
theorem find_text_of_parts_eq_nil (t : FileTree) {p : Path} (hp : p.Proper)
    (hparts : p.parts = []) : t.find p.text = .ok .directory := by
  have hslashes := hp.slashes
  obtain ⟨slashes, parts⟩ := p
  obtain rfl : parts = [] := hparts
  obtain rfl | rfl | rfl : slashes = 0 ∨ slashes = 1 ∨ slashes = 2 := by
    change slashes ≤ 2 at hslashes
    omega
  · rfl
  · rfl
  · rfl

theorem Leads.isPart_last {p : Path} (hp : p.Proper) (h : t.Leads p.text names) :
    (Path.pieces p.text).getLast?.all Path.isPart = true := by
  refine Path.isPart_last_text hp fun hparts => ?_
  obtain ⟨place, hplace, h⟩ := h
  rw [find_text_of_parts_eq_nil t hp hparts, Except.ok.injEq] at h
  subst h
  exact nomatch hplace

theorem parts_ne_nil_of_read {p : Path} (hp : p.Proper) (h : t.read p.text = .ok content) :
    p.parts ≠ [] := by
  intro hparts
  rw [read, find_text_of_parts_eq_nil t hp hparts] at h
  exact nomatch h

end FileTree

end Scriptlet

import Mathlib.Data.List.Infix
import StardustFS.KeyedTable

/-! Directory trees with the operations of a POSIX file system on them. A path is the list of its
names from the root; a tree is closed upwards, so whatever lies below a path has a directory there. -/

inductive DirectoryTree.Node (β : Type*) where
  | directory
  | file (contents : β)
  deriving DecidableEq

/-- A finite tree: the nodes by path. Above every node are directories. -/
structure DirectoryTree (α β : Type*) [DecidableEq α] where
  nodes : Table (List α) (DirectoryTree.Node β)
  closed : ∀ p n, nodes.get p = some n → ∀ q, q <+: p → q ≠ p → nodes.get q = some .directory

namespace DirectoryTree

/-- The errors the operations end with. -/
inductive Error where
  | fileNotFound
  | fileExists
  | isADirectory
  | notADirectory
  deriving DecidableEq, Repr

variable {α β : Type*} [DecidableEq α]

/-- The tree that has its root only. -/
def root : DirectoryTree α β where
  nodes := Table.empty.insert [] .directory
  closed := by
    intro p n hp q hq hne
    rw [Table.get_insert, Table.get_empty] at hp
    split_ifs at hp with h
    rw [h.2] at hq hne
    exact absurd (List.prefix_nil.mp hq) hne

def get (t : DirectoryTree α β) (p : List α) : Option (Node β) := t.nodes.get p

/-- `os.path.isdir`. -/
def isDirectory (t : DirectoryTree α β) (p : List α) : Bool :=
  match t.get p with
  | some .directory => true
  | _ => false

/-- The contents of the regular file at the path. -/
def file? (t : DirectoryTree α β) (p : List α) : Option β :=
  match t.get p with
  | some (.file b) => some b
  | _ => none

/-- `os.path.isfile`. -/
def isFile (t : DirectoryTree α β) (p : List α) : Bool := (t.file? p).isSome

/-- `os.path.exists`. -/
def exists? (t : DirectoryTree α β) (p : List α) : Bool := (t.get p).isSome

/-- The error of an operation that finds no node at the path. -/
def missing (t : DirectoryTree α β) (p : List α) : Error :=
  if p.inits.any t.isFile then .notADirectory else .fileNotFound

/-- `open(path, "rb").read()`. -/
def read (t : DirectoryTree α β) (p : List α) : Except Error β :=
  match t.get p with
  | some (.file b) => .ok b
  | some .directory => .error .isADirectory
  | none => .error (t.missing p)

theorem file?_eq_some_iff {t : DirectoryTree α β} {p : List α} {b : β} :
    t.file? p = some b ↔ t.get p = some (.file b) := by
  unfold file?
  cases t.get p with
  | none => simp
  | some n =>
      cases n with
      | directory => simp
      | file b' => simp

theorem read_eq_ok_iff {t : DirectoryTree α β} {p : List α} {b : β} :
    t.read p = .ok b ↔ t.get p = some (.file b) := by
  unfold read
  cases t.get p with
  | none => simp
  | some n =>
      cases n with
      | directory => simp
      | file b' => simp

theorem isDirectory_iff {t : DirectoryTree α β} {p : List α} :
    t.isDirectory p = true ↔ t.get p = some .directory := by
  unfold isDirectory
  cases t.get p with
  | none => simp
  | some n =>
      cases n with
      | directory => simp
      | file b => simp

/-- Above a node are directories, by the parent alone. -/
theorem get_of_parent {t : DirectoryTree α β} {p q : List α}
    (hparent : t.get p.dropLast = some .directory) (hq : q <+: p) (hne : q ≠ p) :
    t.get q = some .directory := by
  have hp : p ≠ [] := by
    intro h
    rw [h] at hq hne
    exact hne (List.prefix_nil.mp hq)
  rw [← List.dropLast_append_getLast hp] at hq
  rcases List.prefix_concat_iff.mp hq with h | h
  · exact absurd (h.trans (List.dropLast_append_getLast hp)) hne
  · by_cases hd : q = p.dropLast
    · exact hd ▸ hparent
    · exact t.closed _ _ hparent q h hd

/-- `open(path, "wb").write(contents)`: a file at the path is overwritten, a new one is made where
the parent is a directory. -/
def write (t : DirectoryTree α β) (p : List α) (b : β) : Except Error (DirectoryTree α β) :=
  if hdir : t.isDirectory p then .error .isADirectory
  else if h : t.isDirectory p.dropLast then
    .ok ⟨t.nodes.put p (.file b), by
      intro q n hq q' hpre hne
      have hget : t.get q' = some .directory := by
        by_cases hqp : q = p
        · exact get_of_parent (isDirectory_iff.mp h) (hqp ▸ hpre) (hqp ▸ hne)
        · rw [Table.get_put_of_ne _ _ hqp] at hq
          exact t.closed q n hq q' hpre hne
      have hq'p : q' ≠ p := fun he => hdir (isDirectory_iff.mpr (he ▸ hget))
      rw [Table.get_put_of_ne _ _ hq'p]
      exact hget⟩
  else .error (t.missing p)

/-- The tree without the paths that are selected together with everything below them. -/
def prune (t : DirectoryTree α β) (sel : List α → Bool)
    (hsel : ∀ p q, q <+: p → q ≠ p → t.get q = some .directory → sel q → sel p) :
    DirectoryTree α β where
  nodes := t.nodes.deleteWhere fun k _ => sel k
  closed := by
    intro p n hp q hq hne
    rw [Table.get_deleteWhere, Option.filter_eq_some_iff] at hp ⊢
    have hget := t.closed p n hp.1 q hq hne
    refine ⟨hget, ?_⟩
    cases hs : sel q with
    | false => rfl
    | true =>
        have := hsel p q hq hne hget hs
        simp [this] at hp

theorem get_prune (t : DirectoryTree α β) (sel : List α → Bool)
    (hsel : ∀ p q, q <+: p → q ≠ p → t.get q = some .directory → sel q → sel p) (k : List α) :
    (t.prune sel hsel).get k = if sel k then none else t.get k := by
  unfold prune get
  rw [Table.get_deleteWhere]
  cases sel k with
  | true => simp
  | false => cases t.nodes.get k <;> simp

/-- `os.remove`. -/
def remove (t : DirectoryTree α β) (p : List α) : Except Error (DirectoryTree α β) :=
  match h : t.get p with
  | some (.file _) => .ok (t.prune (fun k => k = p) (by
      intro q q' _ _ hget hs
      rw [decide_eq_true_eq] at hs
      rw [hs, h] at hget
      cases hget))
  | some .directory => .error .isADirectory
  | none => .error (t.missing p)

/-- `shutil.rmtree`. -/
def rmtree (t : DirectoryTree α β) (p : List α) : Except Error (DirectoryTree α β) :=
  if t.isDirectory p then
    .ok (t.prune (fun k => decide (p <+: k)) (by
      intro q q' hq _ _ hs
      rw [decide_eq_true_eq] at hs ⊢
      exact hs.trans hq))
  else if t.isFile p then .error .notADirectory
  else .error (t.missing p)

theorem get_insertAll (l : List (List α)) (t : Table (List α) (Node β)) (q : List α) :
    (l.foldl (fun t d => t.insert d .directory) t).get q =
      if t.get q = none ∧ q ∈ l then some .directory else t.get q := by
  induction l generalizing t with
  | nil => simp
  | cons d l ih =>
      rw [List.foldl_cons, ih, Table.get_insert]
      by_cases hq : t.get q = none
      · by_cases hd : q = d
        · subst hd
          simp [hq]
        · simp [hq, hd]
      · simp [hq]

/-- `os.makedirs(path, exist_ok=True)`. A file on the way stops it before anything is made: what
lies above the file exists already. -/
def makedirs (t : DirectoryTree α β) (p : List α) : Except Error (DirectoryTree α β) :=
  if h : p.inits.any t.isFile then .error (if t.isFile p then .fileExists else .notADirectory)
  else .ok ⟨p.inits.foldl (fun t d => t.insert d .directory) t.nodes, by
    intro q n hq q' hpre hne
    rw [get_insertAll] at hq ⊢
    by_cases hmem : q' ∈ p.inits
    · cases hg : t.nodes.get q' with
      | none => rw [if_pos ⟨rfl, hmem⟩]
      | some m =>
          cases m with
          | directory => simp
          | file b =>
              have hfile : t.isFile q' = true :=
                Option.isSome_iff_exists.mpr ⟨b, file?_eq_some_iff.mpr hg⟩
              exact absurd (List.any_eq_true.mpr ⟨q', hmem, hfile⟩) h
    · have hqnot : q ∉ p.inits := by
        intro hqm
        exact hmem ((List.mem_inits _ _).mpr (hpre.trans ((List.mem_inits _ _).mp hqm)))
      rw [if_neg fun h => hqnot h.2] at hq
      rw [if_neg fun h => hmem h.2]
      exact t.closed q n hq q' hpre hne⟩

/-- `os.listdir`: the names directly below a directory, in the order the tree holds them. -/
def listdir (t : DirectoryTree α β) (p : List α) : Except Error (List α) :=
  match t.get p with
  | some .directory =>
      .ok (t.nodes.rows.filterMap fun (k, _) => if k.dropLast = p then k.getLast? else none)
  | some (.file _) => .error .notADirectory
  | none => .error (t.missing p)

/-- The names of the regular files directly in the root. -/
def rootFiles (t : DirectoryTree α β) : List α :=
  t.nodes.rows.filterMap fun
    | ([name], .file _) => some name
    | _ => none

/-! ### What the operations leave at a path -/

theorem get_write {t t' : DirectoryTree α β} {p : List α} {b : β} (h : t.write p b = .ok t')
    (q : List α) : t'.get q = if q = p then some (.file b) else t.get q := by
  unfold write at h
  split_ifs at h with h1 h2
  rw [Except.ok.injEq] at h
  subst h
  split_ifs with hq
  · rw [hq]
    exact Table.get_put_self _ _ _
  · exact Table.get_put_of_ne _ _ hq

theorem get_remove {t t' : DirectoryTree α β} {p : List α} (h : t.remove p = .ok t')
    (q : List α) : t'.get q = if q = p then none else t.get q := by
  unfold remove at h
  split at h
  · rw [Except.ok.injEq] at h
    subst h
    simp [get_prune]
  · cases h
  · cases h

theorem get_rmtree {t t' : DirectoryTree α β} {p : List α} (h : t.rmtree p = .ok t')
    (q : List α) : t'.get q = if p <+: q then none else t.get q := by
  unfold rmtree at h
  split_ifs at h
  rw [Except.ok.injEq] at h
  subst h
  simp [get_prune]

theorem get_makedirs {t t' : DirectoryTree α β} {p : List α} (h : t.makedirs p = .ok t')
    (q : List α) : t'.get q = if t.get q = none ∧ q <+: p then some .directory else t.get q := by
  unfold makedirs at h
  split_ifs at h
  rw [Except.ok.injEq] at h
  subst h
  unfold get
  rw [get_insertAll]
  exact if_congr (and_congr_right fun _ => List.mem_inits _ _) rfl rfl

theorem makedirs_eq_ok_iff {t : DirectoryTree α β} {p : List α} :
    (∃ t', t.makedirs p = .ok t') ↔ p.inits.any t.isFile = false := by
  unfold makedirs
  split_ifs with h
  · simp [h]
  · simpa using h

/-- A file on the way is no missing file. -/
theorem ne_fileNotFound_of_makedirs {t : DirectoryTree α β} {p : List α} {e : Error}
    (h : t.makedirs p = .error e) : e ≠ .fileNotFound := by
  unfold makedirs at h
  split_ifs at h <;> (rintro rfl; cases h)

/-- What was made is a directory. -/
theorem isDirectory_makedirs {t t' : DirectoryTree α β} {p : List α} (h : t.makedirs p = .ok t') :
    t'.isDirectory p = true := by
  have hnofile := List.any_eq_false.mp (makedirs_eq_ok_iff.mp ⟨t', h⟩) p
    ((List.mem_inits _ _).mpr (List.prefix_refl _))
  rw [isDirectory_iff, get_makedirs h]
  unfold isFile file? at hnofile
  cases hnode : t.get p with
  | none => simp
  | some n =>
      cases n with
      | directory => simp
      | file b => simp [hnode] at hnofile

/-! ### Missing files -/

/-- A file is missing where there is no node at its path and no file on the way. -/
theorem read_eq_fileNotFound_iff {t : DirectoryTree α β} {p : List α} :
    t.read p = .error .fileNotFound ↔ t.get p = none ∧ ∀ q, q <+: p → t.isFile q = false := by
  have hmissing : t.missing p = .fileNotFound ↔ ∀ q, q <+: p → t.isFile q = false := by
    simp [missing]
  unfold read
  cases hnode : t.get p with
  | none => simp [hmissing]
  | some n => cases n <;> simp

/-- A file stays missing unless it becomes a directory or something on the way becomes a file. -/
theorem read_fileNotFound_of_get {t t' : DirectoryTree α β} {p : List α}
    (hself : t.get p = none → t'.get p = none)
    (hway : ∀ q, q <+: p → t.isFile q = false → t'.isFile q = false)
    (h : t.read p = .error .fileNotFound) : t'.read p = .error .fileNotFound := by
  obtain ⟨hnone, hnofile⟩ := read_eq_fileNotFound_iff.mp h
  exact read_eq_fileNotFound_iff.mpr ⟨hself hnone, fun q hq => hway q hq (hnofile q hq)⟩

theorem read_makedirs {t t' : DirectoryTree α β} {d p : List α} (h : t.makedirs d = .ok t')
    (hp : ¬ p <+: d) (hread : t.read p = .error .fileNotFound) :
    t'.read p = .error .fileNotFound := by
  refine read_fileNotFound_of_get (fun hnone => ?_) (fun q _ hq => ?_) hread
  · rw [get_makedirs h, if_neg fun hnew => hp hnew.2]
    exact hnone
  · rw [isFile, file?, get_makedirs h]
    split_ifs
    · rfl
    · exact hq

theorem read_write {t t' : DirectoryTree α β} {d p : List α} {b : β} (h : t.write d b = .ok t')
    (hp : ¬ d <+: p) (hread : t.read p = .error .fileNotFound) :
    t'.read p = .error .fileNotFound := by
  refine read_fileNotFound_of_get (fun hnone => ?_) (fun q hq hfile => ?_) hread
  · rw [get_write h, if_neg]
    · exact hnone
    · rintro rfl
      exact hp (List.prefix_refl p)
  · rw [isFile, file?, get_write h, if_neg]
    · exact hfile
    · rintro rfl
      exact hp hq

theorem read_remove {t t' : DirectoryTree α β} {d p : List α} (h : t.remove d = .ok t')
    (hread : t.read p = .error .fileNotFound) : t'.read p = .error .fileNotFound := by
  refine read_fileNotFound_of_get (fun hnone => ?_) (fun q _ hfile => ?_) hread
  · rw [get_remove h, hnone, ite_self]
  · rw [isFile, file?, get_remove h]
    split_ifs
    · rfl
    · exact hfile

theorem mem_rootFiles {t : DirectoryTree α β} {name : α} :
    name ∈ t.rootFiles ↔ ∃ b, t.get [name] = some (.file b) := by
  simp only [rootFiles, List.mem_filterMap, get, Table.get_eq_some_iff]
  constructor
  · rintro ⟨⟨k, n⟩, hmem, h⟩
    split at h
    · rename_i heq
      obtain ⟨rfl, rfl⟩ := Prod.mk.inj heq
      rw [Option.some_inj] at h
      exact ⟨_, h ▸ hmem⟩
    · cases h
  · rintro ⟨b, hmem⟩
    exact ⟨([name], .file b), hmem, rfl⟩

theorem nodup_rootFiles (t : DirectoryTree α β) : t.rootFiles.Nodup := by
  refine List.pairwise_filterMap.mpr ((List.pairwise_map.mp t.nodes.nodup).imp ?_)
  rintro ⟨k, n⟩ ⟨k', n'⟩ hne name h name' h' rfl
  apply hne
  split at h
  · rename_i heq
    split at h'
    · rename_i heq'
      obtain ⟨rfl, -⟩ := Prod.mk.inj heq
      obtain ⟨rfl, -⟩ := Prod.mk.inj heq'
      rw [Option.some_inj] at h h'
      show [_] = [_]
      rw [h, h']
    · cases h'
  · cases h

/-- A regular file can be removed. -/
theorem exists_remove {t : DirectoryTree α β} {p : List α} {b : β}
    (h : t.get p = some (.file b)) : ∃ t', t.remove p = .ok t' := by
  unfold remove
  split
  · exact ⟨_, rfl⟩
  · rename_i heq
    rw [h] at heq
    cases heq
  · rename_i heq
    rw [h] at heq
    cases heq

end DirectoryTree

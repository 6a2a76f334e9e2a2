import StardustFS.ParityStore

/-! Isolation of hosted chunks. Beside the store runs a ledger of what each user is owed: the bytes of
the last accepted store of a chunk that no accepted deletion has followed. The store honours it as
long as no chunk is accepted whose id encodes to the file name of a chunk it already keeps. -/

namespace StardustFS

open FsEncoding

namespace ParityStore

/-! ### What an accepted call leaves -/

/-- What an accepted store has done. -/
structure Stored (s s' : ParityStore) (chunkId : ChunkId) (owner : UserId) (data : Bytes)
    (path : FileNameBytes) : Prop where
  valid : validateChunkId chunkId = true
  named : chunkPath chunkId = some path
  mine : ∀ info, s.index.get chunkId = some info → info.owner = owner
  room : ∀ maxBytes, s.maxBytes = some maxBytes → s'.usedBytes ≤ maxBytes
  entries : ∀ id, s'.index.get id =
    if id = chunkId then some ⟨owner, data.length⟩ else s.index.get id
  files : ∀ name, ¬ Temporary name → name ≠ indexName →
    s'.dir.get name = if name = path then some data else s.dir.get name
  maxBytes : s'.maxBytes = s.maxBytes

theorem refusal_eq_none_iff {s : ParityStore} {chunkId : ChunkId} {owner : UserId} {size : Nat} :
    s.refusal chunkId owner size = none ↔ validateChunkId chunkId = true ∧
      (∀ info, s.index.get chunkId = some info → info.owner = owner) ∧
      ∀ maxBytes, s.maxBytes = some maxBytes →
        (s.usedBytes : Int) - ((s.index.get chunkId).map ChunkMeta.size).getD 0 + size ≤ maxBytes := by
  unfold refusal
  cases validateChunkId chunkId with
  | false => simp
  | true =>
      cases hentry : s.index.get chunkId with
      | none => cases s.maxBytes <;> simp
      | some info =>
          by_cases hmine : info.owner = owner
          · cases s.maxBytes <;> simp [hmine]
          · simp [hmine]

theorem get_saveIndex (s : ParityStore) {name : FileNameBytes} (htmp : ¬ Temporary name)
    (hname : name ≠ indexName) : s.saveIndex.dir.get name = s.dir.get name := by
  rw [saveIndex, get_writeReplacing _ _ _ _ htmp, if_neg hname]

/-- **A store** is refused and changes nothing, or does what `Stored` says. -/
theorem store_cases (s : ParityStore) (chunkId : ChunkId) (owner : UserId) (data : Bytes) :
    (∃ e, s.store chunkId owner data = (.error e, s) ∧
      (s.refusal chunkId owner data.length = none → chunkPath chunkId = none)) ∨
    ∃ s' path, s.store chunkId owner data = (.ok (), s') ∧
      s.refusal chunkId owner data.length = none ∧ Stored s s' chunkId owner data path := by
  cases hrefused : s.refusal chunkId owner data.length with
  | some e =>
      refine Or.inl ⟨e, ?_, fun h => nomatch h⟩
      rw [store, hrefused]
  | none =>
      cases hpath : chunkPath chunkId with
      | none =>
          refine Or.inl ⟨.valueError, ?_, fun _ => rfl⟩
          rw [store, hrefused, hpath]
      | some path =>
          obtain ⟨hvalid, hmine, hroom⟩ := refusal_eq_none_iff.mp hrefused
          refine Or.inr ⟨saveIndex { s with
            dir := writeReplacing s.dir path data
            index := s.index.put chunkId ⟨owner, data.length⟩ }, path, ?_, rfl, hvalid, hpath, hmine,
            fun maxBytes hmax => ?_, fun id => ?_, fun name htmp hname => ?_, rfl⟩
          · rw [store, hrefused, hpath]
          · have hsum := Table.sum_put s.index chunkId ⟨owner, data.length⟩ ChunkMeta.size
            have hfits := hroom maxBytes hmax
            simp only [usedBytes, saveIndex] at hsum hfits ⊢
            omega
          · show (s.index.put chunkId ⟨owner, data.length⟩).get id = _
            split_ifs with hid
            · rw [hid, Table.get_put_self]
            · exact Table.get_put_of_ne _ _ hid
          · rw [get_saveIndex _ htmp hname]
            exact get_writeReplacing _ _ _ _ htmp

/-- What an accepted deletion of a kept chunk has done. -/
structure Deleted (s s' : ParityStore) (chunkId : ChunkId) (path : FileNameBytes) : Prop where
  entries : ∀ id, s'.index.get id = if id = chunkId then none else s.index.get id
  files : ∀ name, ¬ Temporary name → name ≠ indexName →
    s'.dir.get name = if name = path then none else s.dir.get name
  maxBytes : s'.maxBytes = s.maxBytes

/-- **A deletion** changes nothing, or does what `Deleted` says to a chunk of the requester. -/
theorem delete_cases (s : ParityStore) (chunkId : ChunkId) (requester : UserId) :
    (∃ e, s.delete chunkId requester = (.error e, s)) ∨
    s.delete chunkId requester = (.ok (), s) ∧ s.index.get chunkId = none ∨
    ∃ s' info path, s.delete chunkId requester = (.ok (), s') ∧
      s.index.get chunkId = some info ∧ info.owner = requester ∧
      chunkPath chunkId = some path ∧ Deleted s s' chunkId path := by
  unfold delete
  split_ifs
  · exact Or.inl ⟨_, rfl⟩
  · cases hentry : s.index.get chunkId with
    | none => exact Or.inr (Or.inl ⟨rfl, rfl⟩)
    | some info =>
        dsimp only
        split_ifs with howner
        · exact Or.inl ⟨_, rfl⟩
        · cases hpath : chunkPath chunkId with
          | none => exact Or.inl ⟨_, rfl⟩
          | some path =>
              refine Or.inr (Or.inr ⟨_, info, path, rfl, rfl, by simpa using howner, rfl,
                fun id => ?_, fun name htmp hname => ?_, rfl⟩)
              · show (s.index.deleteWhere _).get id = _
                rw [Table.get_deleteWhere]
                by_cases hid : id = chunkId
                · cases s.index.get id <;> simp [hid]
                · cases s.index.get id <;> simp [hid]
              · rw [get_saveIndex _ htmp hname]
                show (s.dir.deleteWhere _).get name = _
                rw [Table.get_deleteWhere]
                by_cases hfile : name = path
                · cases s.dir.get name <;> simp [hfile]
                · cases s.dir.get name <;> simp [hfile]

end ParityStore

/-! ### Runs of calls -/

inductive HostingCall where
  | store (chunkId : ChunkId) (user : UserId) (data : Bytes)
  | fetch (chunkId : ChunkId) (user : UserId)
  | delete (chunkId : ChunkId) (user : UserId)
  | setMaxBytes (maxBytes : Option Int)

/-- A parity store and the ledger of what it owes. -/
structure Hosting where
  parity : ParityStore
  ledger : ChunkId → UserId → Option Bytes := fun _ _ => none

namespace Hosting

open ParityStore

/-- The ledger with one entry changed. -/
def note (ledger : ChunkId → UserId → Option Bytes) (chunkId : ChunkId) (user : UserId)
    (data : Option Bytes) : ChunkId → UserId → Option Bytes :=
  fun id u => if id = chunkId ∧ u = user then data else ledger id u

def step (h : Hosting) : HostingCall → Option Hosting
  | .store chunkId user data =>
      match h.parity.store chunkId user data with
      | (.ok _, parity) => some ⟨parity, note h.ledger chunkId user (some data)⟩
      | (.error _, parity) => some { h with parity }
  | .fetch _ _ => some h
  | .delete chunkId user =>
      match h.parity.delete chunkId user with
      | (.ok _, parity) => some ⟨parity, note h.ledger chunkId user none⟩
      | (.error _, parity) => some { h with parity }
  | .setMaxBytes maxBytes => some { h with parity := h.parity.setMaxBytes maxBytes }

/-- A store over a directory without an index, which owes nothing. -/
def fresh (dump : Table ChunkId ChunkMeta → Bytes) (dir : Table FileNameBytes Bytes)
    (maxBytes : Option Int) : Hosting :=
  { parity := ParityStore.opened dump dir maxBytes }

/-- **What hosting promises in a state.** An owner gets the bytes it is owed; everybody else is turned
away without effect; a store that is accepted here stays within the limit; the chunks that are owed
lie in files of their own in the base directory, none of which is the index or temporary. -/
structure Isolated (h : Hosting) : Prop where
  fetched : ∀ c u data, h.ledger c u = some data → h.parity.fetch c u = .ok data
  turnedAway : ∀ c u v data new, h.ledger c u = some data → v ≠ u →
    h.parity.fetch c v = .error .permission ∧
      h.parity.store c v new = (.error .permission, h.parity) ∧
      h.parity.delete c v = (.error .permission, h.parity)
  withinLimit : ∀ c u data maxBytes parity, h.parity.maxBytes = some maxBytes →
    h.parity.store c u data = (.ok (), parity) → parity.usedBytes ≤ maxBytes
  filed : ∀ c u data, h.ledger c u = some data → ∃ path, chunkPath c = some path ∧
    (h.parity.dir.get path).isSome ∧ DirectChild path ∧ path ≠ indexName ∧ ¬ Temporary path
  apart : ∀ c c' u u' data data', h.ledger c u = some data → h.ledger c' u' = some data' →
    chunkPath c = chunkPath c' → c = c'

/-- The call is no store that passes the checks for an id whose file is that of another chunk. -/
def KeepsFilesApart (h : Hosting) (call : HostingCall) : Prop :=
  ∀ c u data, call = .store c u data → h.parity.refusal c u data.length = none →
    ∀ c' ∈ h.parity.index.keys, chunkPath c' = chunkPath c → c' = c

/-- The ledger, the index and the files agree. -/
structure Kept (h : Hosting) : Prop where
  held : ∀ c u data, h.ledger c u = some data →
    validateChunkId c = true ∧ h.parity.index.get c = some ⟨u, data.length⟩ ∧
      ∃ path, chunkPath c = some path ∧ h.parity.dir.get path = some data
  listed : ∀ c info, h.parity.index.get c = some info → ∃ data, h.ledger c info.owner = some data
  apart : ∀ c c' info info', h.parity.index.get c = some info → h.parity.index.get c' = some info' →
    chunkPath c = chunkPath c' → c = c'

theorem kept_fresh (dump : Table ChunkId ChunkMeta → Bytes) (dir : Table FileNameBytes Bytes)
    (maxBytes : Option Int) : (fresh dump dir maxBytes).Kept :=
  ⟨fun _ _ _ h => (nomatch h), fun _ _ h => (nomatch h), fun _ _ _ _ h => (nomatch h)⟩

theorem withinLimit (s : ParityStore) {c : ChunkId} {u : UserId} {data : Bytes} {maxBytes : Int}
    {s' : ParityStore} (hmax : s.maxBytes = some maxBytes)
    (hstore : s.store c u data = (.ok (), s')) : s'.usedBytes ≤ maxBytes := by
  rcases s.store_cases c u data with ⟨e, herror, -⟩ | ⟨s₁, path, hok, -, hstored⟩
  · rw [herror] at hstore
    cases (Prod.mk.inj hstore).1
  · rw [hok] at hstore
    exact (Prod.mk.inj hstore).2 ▸ hstored.room maxBytes hmax

/-- A chunk another user keeps is not fetched, stored or deleted. -/
theorem turnedAway {s : ParityStore} {c : ChunkId} {info : ChunkMeta} {v : UserId} (new : Bytes)
    (hvalid : validateChunkId c = true) (hentry : s.index.get c = some info) (hv : v ≠ info.owner) :
    s.fetch c v = .error .permission ∧ s.store c v new = (.error .permission, s) ∧
      s.delete c v = (.error .permission, s) := by
  have hother : (info.owner != v) = true := by simpa using hv.symm
  refine ⟨?_, ?_, ?_⟩
  · simp [fetch, hvalid, hentry, hother]
  · have hrefused : s.refusal c v new.length = some .permission := by
      simp [refusal, hvalid, hentry, hother]
    rw [store, hrefused]
  · simp [delete, hvalid, hentry, hother]

theorem Kept.isolated {h : Hosting} (hkept : h.Kept) : h.Isolated := by
  refine ⟨fun c u data howed => ?_, fun c u v data new howed hv => ?_,
    fun c u data maxBytes parity hmax => withinLimit h.parity hmax, fun c u data howed => ?_,
    fun c c' u u' data data' howed howed' => ?_⟩
  · obtain ⟨hvalid, hentry, path, hpath, hfile⟩ := hkept.held c u data howed
    simp [fetch, hvalid, hentry, hpath, hfile]
  · obtain ⟨hvalid, hentry, -⟩ := hkept.held c u data howed
    exact turnedAway new hvalid hentry hv
  · obtain ⟨hvalid, -, path, hpath, hfile⟩ := hkept.held c u data howed
    exact ⟨path, hpath, by rw [hfile]; rfl, directChild_of_chunkPath hvalid hpath,
      ne_indexName_of_chunkPath hpath, not_temporary_of_chunkPath hpath⟩
  · exact hkept.apart c c' _ _ (hkept.held c u data howed).2.1 (hkept.held c' u' data' howed').2.1

/-- An accepted store for an id whose file is its own. -/
theorem Kept.stored {h : Hosting} {c : ChunkId} {u : UserId} {data : Bytes} {parity : ParityStore}
    {path : FileNameBytes} (hkept : h.Kept) (hstored : Stored h.parity parity c u data path)
    (hown : ∀ c' ∈ h.parity.index.keys, chunkPath c' = chunkPath c → c' = c) :
    Kept ⟨parity, note h.ledger c u (some data)⟩ := by
  have hkey : ∀ {c' info}, h.parity.index.get c' = some info → c' ∈ h.parity.index.keys :=
    fun hget => Table.mem_keys_iff.mpr ⟨_, hget⟩
  refine ⟨fun c' u' data' howed => ?_, fun c' info hentry => ?_,
    fun c₁ c₂ info₁ info₂ h₁ h₂ hsame => ?_⟩
  · dsimp only [note] at howed ⊢
    split_ifs at howed with hc
    · obtain ⟨rfl, rfl⟩ := hc
      rw [Option.some_inj] at howed
      subst howed
      refine ⟨hstored.valid, by rw [hstored.entries, if_pos rfl], path, hstored.named, ?_⟩
      rw [hstored.files path (not_temporary_of_chunkPath hstored.named)
        (ne_indexName_of_chunkPath hstored.named), if_pos rfl]
    · obtain ⟨hvalid, hentry, path', hpath', hfile⟩ := hkept.held c' u' data' howed
      have hne : c' ≠ c := by
        rintro rfl
        exact hc ⟨rfl, hstored.mine _ hentry⟩
      have hpaths : path' ≠ path := by
        rintro rfl
        exact hne (hown c' (hkey hentry) (hpath'.trans hstored.named.symm))
      refine ⟨hvalid, by rw [hstored.entries, if_neg hne, hentry], path', hpath', ?_⟩
      rw [hstored.files path' (not_temporary_of_chunkPath hpath') (ne_indexName_of_chunkPath hpath'),
        if_neg hpaths, hfile]
  · rw [hstored.entries] at hentry
    dsimp only [note]
    split_ifs at hentry with hc
    · rw [Option.some_inj] at hentry
      exact ⟨data, by rw [if_pos ⟨hc, by rw [← hentry]⟩]⟩
    · obtain ⟨data', howed⟩ := hkept.listed c' info hentry
      exact ⟨data', by rw [if_neg fun hcu => hc hcu.1, howed]⟩
  · rw [hstored.entries] at h₁ h₂
    split_ifs at h₁ h₂ with hc₁ hc₂ hc₂
    · rw [hc₁, hc₂]
    · rw [hc₁] at hsame ⊢
      exact (hown c₂ (hkey h₂) hsame.symm).symm
    · rw [hc₂] at hsame ⊢
      exact hown c₁ (hkey h₁) hsame
    · exact hkept.apart c₁ c₂ info₁ info₂ h₁ h₂ hsame

/-- An accepted deletion of a kept chunk. -/
theorem Kept.deleted {h : Hosting} {c : ChunkId} {info : ChunkMeta} {parity : ParityStore}
    {path : FileNameBytes} (hkept : h.Kept) (hentry : h.parity.index.get c = some info)
    (hpath : chunkPath c = some path) (hdeleted : Deleted h.parity parity c path) :
    Kept ⟨parity, note h.ledger c info.owner none⟩ := by
  refine ⟨fun c' u' data' howed => ?_, fun c' info' hentry' => ?_,
    fun c₁ c₂ info₁ info₂ h₁ h₂ hsame => ?_⟩
  · dsimp only [note] at howed ⊢
    split_ifs at howed with hc
    obtain ⟨hvalid, hentry', path', hpath', hfile⟩ := hkept.held c' u' data' howed
    have hne : c' ≠ c := by
      rintro rfl
      rw [hentry, Option.some_inj] at hentry'
      exact hc ⟨rfl, by rw [hentry']⟩
    have hpaths : path' ≠ path := by
      rintro rfl
      exact hne (hkept.apart c' c _ info hentry' hentry (hpath'.trans hpath.symm))
    refine ⟨hvalid, by rw [hdeleted.entries, if_neg hne, hentry'], path', hpath', ?_⟩
    rw [hdeleted.files path' (not_temporary_of_chunkPath hpath') (ne_indexName_of_chunkPath hpath'),
      if_neg hpaths, hfile]
  · rw [hdeleted.entries] at hentry'
    split_ifs at hentry' with hc
    obtain ⟨data', howed⟩ := hkept.listed c' info' hentry'
    refine ⟨data', ?_⟩
    dsimp only [note]
    rw [if_neg fun hcu => hc hcu.1, howed]
  · rw [hdeleted.entries] at h₁ h₂
    split_ifs at h₁ h₂
    exact hkept.apart c₁ c₂ info₁ info₂ h₁ h₂ hsame

/-- A deletion that finds nothing leaves the ledger as it is. -/
theorem Kept.note_none {h : Hosting} {c : ChunkId} {u : UserId} (hkept : h.Kept)
    (hentry : h.parity.index.get c = none) : Kept ⟨h.parity, note h.ledger c u none⟩ := by
  have hledger : note h.ledger c u none = h.ledger := by
    funext c' u'
    unfold note
    split_ifs with hc
    · obtain ⟨rfl, rfl⟩ := hc
      cases howed : h.ledger c' u' with
      | none => rfl
      | some data =>
          have hheld := (hkept.held c' u' data howed).2.1
          rw [hentry] at hheld
          cases hheld
    · rfl
  rw [hledger]
  exact hkept

/-- **One call** keeps the ledger, the index and the files in agreement. -/
theorem kept_step {h h' : Hosting} {call : HostingCall} (hkept : h.Kept)
    (hok : h.KeepsFilesApart call) (hstep : h.step call = some h') : h'.Kept := by
  cases call with
  | store c u data =>
      rw [step] at hstep
      rcases h.parity.store_cases c u data with ⟨e, herror, -⟩ | ⟨s', path, haccept, hchecks, hstored⟩
      · rw [herror, Option.some_inj] at hstep
        exact hstep ▸ hkept
      · rw [haccept, Option.some_inj] at hstep
        exact hstep ▸ hkept.stored hstored (hok c u data rfl hchecks)
  | fetch c u =>
      rw [step, Option.some_inj] at hstep
      exact hstep ▸ hkept
  | delete c u =>
      rw [step] at hstep
      rcases h.parity.delete_cases c u with ⟨e, herror⟩ | ⟨hnone, hentry⟩ |
        ⟨s', info, path, haccept, hentry, rfl, hpath, hdeleted⟩
      · rw [herror, Option.some_inj] at hstep
        exact hstep ▸ hkept
      · rw [hnone, Option.some_inj] at hstep
        exact hstep ▸ hkept.note_none hentry
      · rw [haccept, Option.some_inj] at hstep
        exact hstep ▸ hkept.deleted hentry hpath hdeleted
  | setMaxBytes maxBytes =>
      rw [step, Option.some_inj] at hstep
      subst hstep
      exact ⟨hkept.held, hkept.listed, hkept.apart⟩

/-- A store that is accepted for the file of another chunk leaves two chunks in one file. -/
theorem not_isolated_step {h h' : Hosting} {call : HostingCall} (hkept : h.Kept)
    (hbad : ¬ h.KeepsFilesApart call) (hstep : h.step call = some h') : ¬ h'.Isolated := by
  unfold KeepsFilesApart at hbad
  push Not at hbad
  obtain ⟨c, u, data, rfl, hchecks, c', hc', hsame, hne⟩ := hbad
  obtain ⟨info, hentry⟩ := Table.mem_keys_iff.mp hc'
  obtain ⟨data', howed⟩ := hkept.listed c' info hentry
  obtain ⟨-, -, path', hpath', -⟩ := hkept.held c' info.owner data' howed
  rw [step] at hstep
  rcases h.parity.store_cases c u data with ⟨e, -, hnopath⟩ | ⟨s', path, haccept, -, -⟩
  · rw [hsame, hnopath hchecks] at hpath'
    cases hpath'
  · rw [haccept, Option.some_inj] at hstep
    subst hstep
    intro hisolated
    refine hne (hisolated.apart c' c info.owner u data' data ?_ ?_ hsame)
    · dsimp only [note]
      rw [if_neg fun hcu => hne hcu.1, howed]
    · dsimp only [note]
      rw [if_pos ⟨rfl, rfl⟩]

/-- **Hosted chunks are isolated and within quota** in every state of a run of calls by any users
exactly where no call of it is a store that passes the checks for an id whose encoded file name is
that of another chunk kept at that moment. -/
theorem isolated_iff_keepsFilesApart (dump : Table ChunkId ChunkMeta → Bytes)
    (dir : Table FileNameBytes Bytes) (maxBytes : Option Int) (calls : List HostingCall) :
    Transitions.StatesMeet step Isolated (fresh dump dir maxBytes) calls ↔
      Transitions.StepsMeet step KeepsFilesApart (fresh dump dir maxBytes) calls := by
  have htotal : ∀ h call, ∃ h', step h call = some h' := by
    intro h call
    cases call with
    | store c u data =>
        rw [step]
        split <;> exact ⟨_, rfl⟩
    | fetch c u => exact ⟨_, rfl⟩
    | delete c u =>
        rw [step]
        split <;> exact ⟨_, rfl⟩
    | setMaxBytes maxBytes => exact ⟨_, rfl⟩
  exact Transitions.statesMeet_iff_stepsMeet_of_total htotal (fun _ => Kept.isolated)
    (fun _ _ _ => kept_step) (fun _ _ _ => not_isolated_step) (kept_fresh dump dir maxBytes) calls

/-- Two ids whose encodings agree: the letter, and the two bytes of its encoding escaped. -/
def sharedNameRun : List HostingCall :=
  [.store (codePoints "é") "alice" [1], .store [0xDCC3, 0xDCA9] "bob" [2]]

/-- Bob's chunk is written over the file of Alice's, and she is given his bytes. -/
theorem escaped_id_overwrites_chunk :
    ¬ ∀ (dump : Table ChunkId ChunkMeta → Bytes) (dir : Table FileNameBytes Bytes)
      (maxBytes : Option Int) (calls : List HostingCall),
      Transitions.StatesMeet step Isolated (fresh dump dir maxBytes) calls := by
  intro h
  have hlast := (((h (fun _ => []) Table.empty none sharedNameRun).2 _ rfl).2 _ rfl)
  have hfetch := Isolated.fetched hlast (codePoints "é") "alice" [1] (by decide)
  revert hfetch
  decide

end Hosting

end StardustFS

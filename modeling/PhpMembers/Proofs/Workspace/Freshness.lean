import PhpMembers.Proofs.Workspace.Additions

/-! # Answers from kept files

A session keeps the files that it was asked about. What it answers is nevertheless what it would answer if it
parsed every text afresh: a file is used only for its own text, and it holds nothing but what follows from
this text.

* `Cache.Sound` : what is true of the kept files at any time.
* `Cache.Sound.insert`, `Cache.Sound.fetch` : keeping one more file.
* `Request`, `Session.serve`, `ClassTable.serve` : additions and questions, with and without kept files.
* `Session.serve_sound` : one request; `answers_from_kept_files` : any requests. -/

namespace PhpMembers

/-! ## (1) Kept files -/

namespace Cache

/-- What is true of a cache at any time. -/
structure Sound (cache : Cache) : Prop where
  /-- Each file is the one with its text. -/
  fresh : ∀ kept ∈ cache.files, kept.2 = .ofText kept.2.text
  /-- No hash is listed twice. -/
  nodup : (cache.files.map (·.1)).Nodup
  /-- There are not too many files. -/
  bounded : cache.files.length ≤ capacity

/-- Nothing is kept at first. -/
theorem sound_empty : Sound .empty where
  fresh := List.forall_mem_nil _
  nodup := List.nodup_nil
  bounded := Nat.zero_le _

/-- The files of a cache with another one in the place of that with a hash. -/
def replaced (cache : Cache) (hash : UInt64) (file : SourceFile) : List (UInt64 × SourceFile) :=
  cache.files.map fun f => if f.1 == hash then (hash, file) else f

/-- The files of a cache that stay when one more comes. -/
def remaining (cache : Cache) : List (UInt64 × SourceFile) :=
  if capacity ≤ cache.files.length then cache.files.tail else cache.files

variable {cache : Cache} {hash : UInt64}

theorem insert_eq (cache : Cache) (hash : UInt64) (file : SourceFile) : cache.insert hash file =
    if cache.holds hash then ⟨cache.replaced hash file⟩ else ⟨cache.remaining ++ [(hash, file)]⟩ := rfl

/-- A hash is held if it is listed. -/
theorem holds_iff : cache.holds hash = true ↔ hash ∈ cache.files.map (·.1) := by
  rw [holds, List.any_eq_true, List.mem_map]
  simp only [beq_iff_eq]

/-- A file that gives up its place does so under its own hash. -/
theorem map_hash_replaced (cache : Cache) (hash : UInt64) (file : SourceFile) :
    (cache.replaced hash file).map (·.1) = cache.files.map (·.1) := by
  rw [replaced, List.map_map]
  refine List.map_congr_left fun f _ => ?_
  rw [Function.comp]
  split
  · rename_i same
    exact (beq_iff_eq.mp same).symm
  · rfl

/-- The oldest file may have to go, the others stay. -/
theorem remaining_sublist (cache : Cache) : cache.remaining.Sublist cache.files := by
  rw [remaining]
  split
  · exact List.tail_sublist _
  · exact List.Sublist.refl _

/-- A hash that is not held is not listed among the remaining files. -/
theorem notMem_remaining (new : ¬ cache.holds hash = true) : hash ∉ cache.remaining.map (·.1) :=
  fun listed => new (holds_iff.mpr ((cache.remaining_sublist.map _).subset listed))

/-- Then there is room for one more. -/
theorem length_remaining_lt (bounded : cache.files.length ≤ capacity) :
    cache.remaining.length < capacity := by
  have positive : 0 < capacity := by decide
  rw [remaining]
  split
  · rw [List.length_tail]
    omega
  · omega

/-- **A file can be kept under any hash**, also under one that another file has. -/
theorem Sound.insert (sound : cache.Sound) (hash : UInt64) (text : Text) :
    (cache.insert hash (.ofText text)).Sound := by
  rw [insert_eq]
  -- A hash that is held keeps its place; a new one may push the oldest out.
  by_cases held : cache.holds hash = true
  · rw [if_pos held]
    refine ⟨fun kept mem => ?_, ?_, ?_⟩
    · obtain ⟨f, inCache, rfl⟩ := List.mem_map.mp mem
      split
      · rfl
      · exact sound.fresh f inCache
    · simp only [map_hash_replaced]
      exact sound.nodup
    · simp only [replaced, List.length_map]
      exact sound.bounded
  · rw [if_neg held]
    refine ⟨fun kept mem => ?_, ?_, ?_⟩
    · rcases List.mem_append.mp mem with isOld | isNew
      · exact sound.fresh kept (cache.remaining_sublist.subset isOld)
      · rw [List.mem_singleton.mp isNew]
        rfl
    · simp only [List.map_append]
      refine List.nodup_append.mpr
        ⟨(cache.remaining_sublist.map _).nodup sound.nodup, List.pairwise_singleton _ _, ?_⟩
      rintro old mem _ isNew rfl
      rw [List.mem_singleton.mp isNew] at mem
      exact notMem_remaining held mem
    · rw [List.length_append]
      exact length_remaining_lt sound.bounded

/-- A file that is found is the one with the text. -/
theorem Sound.eq_of_find? (sound : cache.Sound) {text : Text} {file : SourceFile}
    (found : cache.find? hash text = some file) : file = .ofText text := by
  rw [find?] at found
  split at found
  · rename_i kept listed
    obtain ⟨isText, same⟩ := Option.ite_none_right_eq_some.mp found
    obtain ⟨before, after, all, -⟩ := List.lookup_eq_some_iff.mp listed
    have mem : (hash, kept) ∈ cache.files := all ▸ List.mem_append_right _ List.mem_cons_self
    rw [← Option.some.inj same, ← isText]
    exact sound.fresh _ mem
  · cases found

/-- A file that gives up its place is no longer found. -/
theorem lookup_replaced (held : hash ∈ cache.files.map (·.1)) (file : SourceFile) :
    (cache.replaced hash file).lookup hash = some file := by
  rw [replaced]
  generalize cache.files = files at held
  induction files with
  | nil => cases held
  | cons first rest ih =>
      rw [List.map_cons]
      by_cases same : first.1 = hash
      · rw [if_pos (beq_iff_eq.mpr same), List.lookup_cons_self]
      · have differ : (hash == first.1) = false := beq_eq_false_iff_ne.mpr fun equal => same equal.symm
        rw [if_neg (by simpa using same), List.lookup_cons, differ]
        exact ih ((List.mem_cons.mp held).resolve_left fun equal => same equal.symm)

/-- A file that has been put under a hash is found there. -/
theorem find?_insert (cache : Cache) (hash : UInt64) (text : Text) :
    (cache.insert hash (.ofText text)).find? hash text = some (.ofText text) := by
  have listed : (cache.insert hash (.ofText text)).files.lookup hash = some (.ofText text) := by
    rw [insert_eq]
    by_cases held : cache.holds hash = true
    · rw [if_pos held]
      exact lookup_replaced (holds_iff.mp held) _
    · have new : cache.remaining.lookup hash = none := List.lookup_eq_none_iff.mpr fun f mem =>
        bne_iff_ne.mpr fun equal => notMem_remaining held (equal ▸ List.mem_map_of_mem mem)
      rw [if_neg held, List.lookup_append, new, Option.none_or, List.lookup_cons_self]
  rw [find?, listed]
  exact if_pos rfl

/-- **What a cache answers is the file with the text**, whatever it has kept, and it keeps this file. -/
theorem Sound.fetch (sound : cache.Sound) (hash : Text → UInt64) (text : Text) :
    (cache.fetch hash text).1 = .ofText text ∧ (cache.fetch hash text).2.Sound ∧
      (cache.fetch hash text).2.find? (hash text) text = some (.ofText text) := by
  rw [Cache.fetch]
  split
  · rename_i file found
    obtain rfl := sound.eq_of_find? found
    exact ⟨rfl, sound, found⟩
  · exact ⟨rfl, sound.insert _ _, cache.find?_insert _ _⟩

end Cache

/-! ## (2) Requests -/

/-- What a session can be asked to do. -/
inductive Request
  /-- Add texts. -/
  | addition (a : Addition)
  /-- Tell the type of the outermost expression of a text that ends at an offset. -/
  | typeAt (source : Text) (offset : Nat)

/-- What a session answers. -/
inductive Answer
  /-- The number of class-likes that were seen, or why a text could not be read. -/
  | added (count : Except LoadError Nat)
  /-- A type. -/
  | type (type : StaticType)

namespace Session

/-- A session after a request, and its answer. -/
def serve (hash : Text → UInt64) (s : Session) : Request → Session × Answer
  | .addition a => ((s.extend a).1, .added (s.extend a).2)
  | .typeAt source offset =>
    ((s.typeAt hash source offset).2, .type (s.typeAt hash source offset).1)

/-- A session after several requests, and its answers. -/
def serveAll (hash : Text → UInt64) : Session → List Request → Session × List Answer
  | s, [] => (s, [])
  | s, request :: rest =>
    let first := s.serve hash request
    let others := serveAll hash first.1 rest
    (others.1, first.2 :: others.2)

end Session

namespace ClassTable

/-- The type of the outermost expression that ends at an offset of a text that is parsed now. -/
def typeAt (known : ClassTable) (source : Text) (offset : Nat) : StaticType :=
  if utf8Length source < offset then .unknown else (SourceFile.ofText source).typeAt known offset

/-- The class-likes that are known after a request, and its answer if no file is kept. -/
def serve (known : ClassTable) : Request → ClassTable × Answer
  | .addition a =>
    let s : Session := ⟨known, .empty⟩
    ((s.extend a).1.classes, .added (s.extend a).2)
  | .typeAt source offset => (known, .type (known.typeAt source offset))

/-- The class-likes that are known after several requests, and the answers if no file is kept. -/
def serveAll : ClassTable → List Request → ClassTable × List Answer
  | known, [] => (known, [])
  | known, request :: rest =>
    let first := known.serve request
    let others := serveAll first.1 rest
    (others.1, first.2 :: others.2)

end ClassTable

/-! ## (3) Answers -/

namespace Session

/-- Additions do not look at kept files. -/
theorem extend_eq (s : Session) (a : Addition) : s.extend a =
    (⟨(s.classes.serve (.addition a)).1, s.cache⟩, ((⟨s.classes, .empty⟩ : Session).extend a).2) := by
  rw [ClassTable.serve]
  by_cases readable : ∃ texts, a.Reads texts
  · obtain ⟨texts, reads⟩ := readable
    rw [extend_of_reads _ reads, extend_of_reads _ reads, addTexts_eq, addTexts_eq]
  · have unread := not_exists.mp readable
    rw [extend_of_not_reads _ unread, extend_of_not_reads _ unread]

/-- **A question is answered from the text alone and the class-likes that are known by then**, and its file is
kept. -/
theorem typeAt_sound {s : Session} (sound : s.cache.Sound) (hash : Text → UInt64) (source : Text)
    (offset : Nat) : (s.typeAt hash source offset).1 = s.classes.typeAt source offset ∧
      (s.typeAt hash source offset).2.classes = s.classes ∧
      (s.typeAt hash source offset).2.cache.Sound ∧
      (utf8Length source < offset ∨
        (s.typeAt hash source offset).2.cache.find? (hash source) source = some (.ofText source)) := by
  obtain ⟨answer, kept, found⟩ := sound.fetch hash source
  rw [typeAt, ClassTable.typeAt]
  by_cases behind : utf8Length source < offset
  · rw [if_pos behind, if_pos behind]
    exact ⟨rfl, rfl, sound, .inl behind⟩
  · rw [if_neg behind, if_neg behind]
    exact ⟨congrArg (·.typeAt s.classes offset) answer, rfl, kept, .inr found⟩

/-- **One request.** -/
theorem serve_sound {s : Session} (sound : s.cache.Sound) (hash : Text → UInt64) (request : Request) :
    (s.serve hash request).2 = (s.classes.serve request).2 ∧
      (s.serve hash request).1.classes = (s.classes.serve request).1 ∧
      (s.serve hash request).1.cache.Sound := by
  cases request with
  | addition a =>
      rw [serve, extend_eq]
      exact ⟨rfl, rfl, sound⟩
  | typeAt source offset =>
      obtain ⟨answer, known, kept, -⟩ := typeAt_sound sound hash source offset
      exact ⟨congrArg Answer.type answer, known, kept⟩

/-- **Requests one after the other.** -/
theorem serveAll_sound {s : Session} (sound : s.cache.Sound) (hash : Text → UInt64)
    (requests : List Request) :
    (s.serveAll hash requests).2 = (s.classes.serveAll requests).2 ∧
      (s.serveAll hash requests).1.classes = (s.classes.serveAll requests).1 ∧
      (s.serveAll hash requests).1.cache.Sound := by
  induction requests generalizing s with
  | nil => exact ⟨rfl, rfl, sound⟩
  | cons request rest ih =>
      obtain ⟨answer, known, kept⟩ := serve_sound sound hash request
      obtain ⟨answers, knownAfter, keptAfter⟩ := ih kept
      rw [known] at answers knownAfter
      exact ⟨congrArg₂ List.cons answer answers, knownAfter, keptAfter⟩

end Session

/-- **Kept files do not show in the answers.** Whatever is added to a session and asked in any order, and
whatever texts have the same hash, the session answers as if it kept no file and parsed every text when it is
asked about, with the class-likes that are known by then. It never keeps more than 32 files, no two of them
under one hash, and it keeps the file that was asked about last, unless the offset lay behind its end. -/
theorem answers_from_kept_files (hash : Text → UInt64) (requests : List Request) :
    (Session.empty.serveAll hash requests).2 = (ClassTable.empty.serveAll requests).2 ∧
      (Session.empty.serveAll hash requests).1.classes = (ClassTable.empty.serveAll requests).1 ∧
      (Session.empty.serveAll hash requests).1.cache.files.length ≤ 32 ∧
      ((Session.empty.serveAll hash requests).1.cache.files.map (·.1)).Nodup ∧
      ∀ source offset, utf8Length source < offset ∨
        ((Session.empty.serveAll hash requests).1.serve hash (.typeAt source offset)).1.cache.find?
          (hash source) source = some (.ofText source) := by
  obtain ⟨answers, known, sound⟩ := Session.serveAll_sound (s := .empty) Cache.sound_empty hash requests
  exact ⟨answers, known, sound.bounded, sound.nodup, fun source offset =>
    (Session.typeAt_sound sound hash source offset).2.2.2⟩

end PhpMembers

import Trillionnium.DataAvailability.Accountability
import Trillionnium.DataAvailability.Batch
import Trillionnium.Lib.Layout
import Trillionnium.Lib.Merkle

/-!
# Batches and what their identifier binds

A batch that `build` returns keeps its transactions: the content is their encoding and the chunks
are the content, cut at the chunk size. What is restored from storage is such a batch. The
identifier hashes the envelope, the envelope has the content root, the root determines the leaves of
a tree of known width and a leaf determines its transaction; so without a collision among the hashed
messages two batches with one identifier hold the same transactions.
-/

namespace Trillionnium.DataAvailability

open Lib Pon
open Mvcc (Borsh u16 u32 u64 hash32 bytes)

/-! ## Hashed messages -/

def valueMessage {α : Type} (domain : String) (c : Borsh α) (value : α) : Bytes :=
  digestMessage domain ((c.encode value).getD [])

abbrev parentCode : Borsh (Bytes × U32 × Hash × Hash) :=
  bytes.pair <| u32.pair <| hash32.pair hash32

def parentMessage (domain : String) (level : Nat) (left right : Hash) : Bytes :=
  valueMessage "trnm.portable.v2.da-merkle-parent.candidate.v1" parentCode
    (Bytes.ofString domain, BitVec.ofNat 32 level, left, right)

def contentDomain : String := "trnm.portable.v2.da-content-leaf.candidate.v1"

section
variable (crypto : Crypto)

def parentHash (domain : String) (level : Nat) (left right : Hash) : Hash :=
  crypto.sha256 (parentMessage domain level left right)

def itemMessage (transaction : Bytes) : Bytes :=
  valueMessage "trnm.portable.v2.da-transaction-item.candidate.v1" bytes transaction

def leafMessage (item : Bytes × Nat) : Bytes :=
  valueMessage contentDomain (u32.pair <| hash32.pair hash32)
    (BitVec.ofNat 32 item.2, crypto.sha256 (itemMessage item.1), crypto.sha256 (itemMessage item.1))

def contentLeaves (transactions : List Bytes) : List Hash :=
  transactions.zipIdx.map fun item => crypto.sha256 (leafMessage crypto item)

def contentTop (transactions : List Bytes) : List Hash :=
  Merkle.top (parentHash crypto contentDomain) transactions.length 0
    (contentLeaves crypto transactions)

def rootMessage (transactions : List Bytes) : Bytes :=
  valueMessage "trnm.portable.v2.da-merkle-root.candidate.v1" (bytes.pair <| u32.pair hash32)
    (Bytes.ofString contentDomain, BitVec.ofNat 32 transactions.length,
      (contentTop crypto transactions).headD .zero)

def parentMessages (transactions : List Bytes) : List Bytes :=
  (Merkle.topPairs (parentHash crypto contentDomain) transactions.length 0
    (contentLeaves crypto transactions)).map fun p => parentMessage contentDomain p.1 p.2.1 p.2.2

def profileMessage (policy : DaPolicy) : Bytes :=
  valueMessage "trnm.portable.v2.da-chunking-profile.v1" (u16.pair <| u8.pair u32)
    (1, 0, policy.maxChunkBytes)

def envelopeMessage (envelope : DaBatchEnvelope) : Bytes :=
  valueMessage "trnm.portable.v2.da-batch.v1" DaBatchEnvelope.code envelope

/-- The messages that the identifier of a batch is hashed from: those of its envelope, its chunking
profile and the tree over its transactions. -/
def boundMessages (policy : DaPolicy) (transactions : List Bytes)
    (batch : UnsignedTransactionBatch) : List Bytes :=
  envelopeMessage batch.envelope :: profileMessage policy :: rootMessage crypto transactions ::
    (parentMessages crypto transactions ++ transactions.zipIdx.map (leafMessage crypto) ++
      transactions.map itemMessage)

end

section
variable {crypto : Crypto} {α : Type} {domain : String} {c : Borsh α} {a b : α} {hash : Hash}

theorem sha256_valueMessage (h : digestValue crypto domain c a = .ok hash) :
    (∃ x, c.encode a = some x) ∧ crypto.sha256 (valueMessage domain c a) = hash := by
  obtain ⟨-, -, x, hx, hhash⟩ := digestValue_eq_ok.mp h
  exact ⟨⟨x, hx⟩, by rw [valueMessage, hx]; exact hhash⟩

theorem valueMessage_inj (ha : ∃ x, c.encode a = some x) (hb : ∃ x, c.encode b = some x)
    (h : valueMessage domain c a = valueMessage domain c b) : a = b := by
  obtain ⟨x, hx⟩ := ha
  obtain ⟨y, hy⟩ := hb
  rw [valueMessage, valueMessage, hx, hy] at h
  obtain rfl : x = y := digestMessage_inj h
  exact c.encode_inj hx hy

end

section
variable {crypto : Crypto} {committee : DaCommitteeDescriptor} {policy : DaPolicy}
  {authorId : Bytes} {authorSequence : U64} {transactions : List Bytes}
  {batch : UnsignedTransactionBatch} {domain : String}
  {level : U32} {leaves parents : List Hash} {hash : Hash}

/-! ## The tree -/

theorem merkleParents_eq (h : merkleParents crypto domain level leaves = .ok parents) :
    parents = Merkle.levelUp (parentHash crypto domain level.toNat) leaves := by
  have hparent {left right hash : Hash}
      (h : digestValue crypto "trnm.portable.v2.da-merkle-parent.candidate.v1"
      parentCode (Bytes.ofString domain, level, left, right) = .ok hash) :
      parentHash crypto domain level.toNat left right = hash := by
    rw [parentHash, parentMessage, BitVec.ofNat_toNat, BitVec.setWidth_eq]
    exact (sha256_valueMessage h).2
  induction leaves using Merkle.levelUp.induct generalizing parents with
  | case1 => exact (Except.ok.inj h).symm
  | case2 left =>
    simp only [merkleParents, bind_eq_ok, pure_eq_ok] at h
    obtain ⟨parent, h, rfl⟩ := h
    rw [Merkle.levelUp, hparent h]
  | case3 left right rest ih =>
    simp only [merkleParents, bind_eq_ok, pure_eq_ok] at h
    obtain ⟨parent, h, parents, hrest, rfl⟩ := h
    rw [Merkle.levelUp, hparent h, ih hrest]

theorem merkleTop_eq (h : merkleTop crypto domain rounds level leaves = .ok top) :
    top = Merkle.top (parentHash crypto domain) rounds level.toNat leaves := by
  induction rounds generalizing level leaves with
  | zero => exact (Except.ok.inj h).symm
  | succ rounds ih =>
    rw [merkleTop] at h
    rw [Merkle.top]
    split at h
    · next hwide =>
      simp only [bind_eq_ok, checkedAdd_eq_ok] at h
      obtain ⟨parents, hparents, level', hlevel, h⟩ := h
      rw [if_pos hwide, ih h, merkleParents_eq hparents, hlevel]
      rfl
    · next hwide =>
      rw [if_neg hwide]
      exact (Except.ok.inj h).symm

theorem contentLeaf_eq
    (h : UnsignedTransactionBatch.contentLeaf crypto transaction index = .ok hash) :
    (∃ x, bytes.encode transaction = some x) ∧
    crypto.sha256 (leafMessage crypto (transaction, index)) = hash := by
  simp only [UnsignedTransactionBatch.contentLeaf, bind_eq_ok, tryFrom_eq_ok] at h
  obtain ⟨itemId, hitem, index, rfl, digest, hdigest, h⟩ := h
  obtain ⟨hwritten, rfl⟩ := sha256_valueMessage hitem
  obtain ⟨-, rfl⟩ := sha256_valueMessage hdigest
  refine ⟨hwritten, ?_⟩
  rw [leafMessage, BitVec.ofNat_toNat, BitVec.setWidth_eq]
  exact (sha256_valueMessage h).2

/-! ## What a build did -/

/-- The chunk of a piece of the content, with the coordinate that the envelope has. -/
def chunkOf (crypto : Crypto) (envelope : DaBatchEnvelope) (piece : Bytes × Nat) :
    DaResult DaChunk := do
  let chunkIndex ← tryFrom 32 piece.2 (overflow "chunk index exceeds u32")
  DaChunk.ofBytes crypto ⟨1, envelope.context, transactionBatchNamespace, envelope.epoch,
    envelope.committeeId, envelope.authorId, envelope.authorSequence, envelope.chunkingProfileId,
    chunkIndex, BitVec.ofNat 64 piece.1.length⟩ piece.1

structure Built (crypto : Crypto) (policy : DaPolicy) (authorId : Bytes) (authorSequence : U64)
    (transactions : List Bytes) (batch : UnsignedTransactionBatch) : Prop where
  authorId : batch.envelope.authorId = authorId
  authorSequence : batch.envelope.authorSequence = authorSequence
  nonempty : transactions ≠ []
  content : bytes.vec.encode transactions = some batch.contentBytes
  itemCount : batch.envelope.itemCount.toNat = transactions.length
  profile : crypto.sha256 (profileMessage policy) = batch.envelope.chunkingProfileId
  items : ∀ transaction ∈ transactions, ∃ x, bytes.encode transaction = some x
  contentRoot : crypto.sha256 (rootMessage crypto transactions) = batch.envelope.contentRoot
  chunkSize : 0 < policy.maxChunkBytes.toNat
  chunks : (batch.contentBytes.toChunks policy.maxChunkBytes.toNat).zipIdx.mapM
    (chunkOf crypto batch.envelope) = .ok batch.chunks
  identified : batch.envelope.batchId crypto = .ok batch.batchId

theorem contentRoot_eq (hleaves : transactions.zipIdx.mapM (fun item : Bytes × Nat =>
      UnsignedTransactionBatch.contentLeaf crypto item.1 item.2) = .ok leaves)
    (hroot : merkleRoot crypto contentDomain leaves = .ok hash) :
    (∀ transaction ∈ transactions, ∃ x, bytes.encode transaction = some x) ∧
      crypto.sha256 (rootMessage crypto transactions) = hash := by
  have hmap : leaves = contentLeaves crypto transactions :=
    map_of_mapM hleaves fun _ _ _ h => (contentLeaf_eq h).2
  have hlength : leaves.length = transactions.length := by simp [hmap, contentLeaves]
  constructor
  · intro transaction hmem
    obtain ⟨index, hindex⟩ := List.mem_iff_getElem?.mp hmem
    obtain ⟨leaf, hleaf⟩ := exists_mapM_eq_ok.mp ⟨leaves, hleaves⟩ (transaction, index)
      (List.mem_zipIdx_iff_getElem?.mpr hindex)
    exact (contentLeaf_eq hleaf).1
  · simp only [merkleRoot, bind_eq_ok, require_eq_ok, tryFrom_eq_ok] at hroot
    obtain ⟨-, -, count, hcount, top, htop, hroot⟩ := hroot
    obtain rfl : count = BitVec.ofNat 32 transactions.length := by
      rw [← hlength, ← hcount, BitVec.ofNat_toNat, BitVec.setWidth_eq]
    have htop : top = contentTop crypto transactions := by
      rw [merkleTop_eq htop, hlength, hmap]
      rfl
    rw [htop] at hroot
    exact (sha256_valueMessage hroot).2

theorem built_of_build
    (h : UnsignedTransactionBatch.build crypto committee policy authorId authorSequence
      transactions = .ok batch) :
    Built crypto policy authorId authorSequence transactions batch := by
  simp only [UnsignedTransactionBatch.build, bind_eq_ok, getOr_eq_ok, require_eq_ok, tryFrom_eq_ok,
    pure_eq_ok, canonicalBytes_eq_ok] at h
  obtain ⟨_, _, _, hpolicy, authority, _, _, _, _, ⟨hnonempty, _⟩, _, _, content, hcontent, total,
    htotal, _, _, codec, _, profile, hprofile, leaves, hleaves, contentRoot, hcontentRoot, _, _,
    committeeId, _, chunks, hchunks, chunkLeaves, _, chunkRoot, _, retention, _, items, hitems,
    count, _, id, hid, rfl⟩ := h
  obtain ⟨hwritten, hroot⟩ := contentRoot_eq hleaves hcontentRoot
  refine ⟨rfl, rfl, hnonempty, hcontent, hitems, (sha256_valueMessage hprofile).2, hwritten, hroot,
    ?_, hchunks, hid⟩
  simp only [DaPolicy.validate, bind_eq_ok, require_eq_ok] at hpolicy
  obtain ⟨_, _, _, _, _, ⟨_, _, _, hsize, _⟩, _⟩ := hpolicy
  exact Nat.pos_of_ne_zero fun h => hsize (BitVec.eq_of_toNat_eq h)

namespace Built

/-! ## Lossless -/

theorem ofBytes_eq (h : DaChunk.ofBytes crypto coordinate bs = .ok chunk) :
    chunk.coordinate = coordinate ∧ chunk.bytes = bs := by
  simp only [DaChunk.ofBytes, bind_eq_ok, pure_eq_ok] at h
  obtain ⟨_, _, id, _, digest, _, rfl⟩ := h
  exact ⟨rfl, rfl⟩

theorem chunkOf_eq (h : chunkOf crypto envelope piece = .ok chunk) :
    chunk.bytes = piece.1 ∧ chunk.validate crypto = .ok () := by
  simp only [chunkOf, bind_eq_ok] at h
  obtain ⟨index, -, h⟩ := h
  obtain ⟨hcoordinate, hbytes⟩ := ofBytes_eq h
  refine ⟨hbytes, ?_⟩
  rw [DaChunk.validate, hcoordinate, hbytes, bind_of_ok h, require_eq_ok]
  exact ⟨rfl, rfl⟩

variable (h : Built crypto policy authorId authorSequence transactions batch)
include h

theorem map_bytes :
    batch.chunks.map DaChunk.bytes = batch.contentBytes.toChunks policy.maxChunkBytes.toNat := by
  have hall := (forall₂_of_mapM h.chunks).imp fun _ _ hchunk => (chunkOf_eq hchunk).1.symm
  rw [← List.zipIdx_map_fst 0 (batch.contentBytes.toChunks policy.maxChunkBytes.toNat)]
  exact (List.forall₂_eq_eq_eq ▸ List.forall₂_map_left_iff.mpr
    (List.forall₂_map_right_iff.mpr hall) : _ = _).symm

theorem decoded :
    strictDecode bytes.vec batch.contentBytes = .ok transactions := strictDecode_eq_ok.mpr h.content

theorem verifyExact
    (hbuild : UnsignedTransactionBatch.build crypto committee policy authorId authorSequence
      transactions = .ok batch) : batch.verifyExact crypto committee policy = .ok () := by
  simp only [UnsignedTransactionBatch.verifyExact, bind_eq_ok, forM_eq_ok, require_eq_ok]
  refine ⟨(), fun chunk hchunk => ?_, transactions, h.decoded, batch, ?_, rfl⟩
  · obtain ⟨piece, -, hpiece⟩ := exists_of_mem_mapM h.chunks hchunk
    exact (chunkOf_eq hpiece).2
  · rw [h.authorId, h.authorSequence]
    exact hbuild

end Built

/-! ## Binding -/

theorem contentDomain_written : ∃ x, bytes.encode (Bytes.ofString contentDomain) = some x :=
  Option.isSome_iff_exists.mp (by decide +kernel)

theorem parentMessage_inj {level : Nat} {p q : Hash × Hash}
    (h : parentMessage contentDomain level p.1 p.2 = parentMessage contentDomain level q.1 q.2) :
    p = q := by
  have hwritten (r : Hash × Hash) : ∃ x, parentCode.encode (Bytes.ofString contentDomain,
      BitVec.ofNat 32 level, r) = some x :=
    Code.pair_isSome.mpr ⟨contentDomain_written, Code.pair_isSome.mpr ⟨⟨_, rfl⟩,
      Code.pair_isSome.mpr ⟨⟨_, rfl⟩, ⟨_, rfl⟩⟩⟩⟩
  have heq := valueMessage_inj (hwritten p) (hwritten q) h
  simp only [Prod.mk.injEq, true_and] at heq
  exact heq

theorem leafMessage_inj (h : leafMessage crypto item = leafMessage crypto item') :
    crypto.sha256 (itemMessage item.1) = crypto.sha256 (itemMessage item'.1) := by
  have hwritten (x : U32 × Hash × Hash) : ∃ y, (u32.pair <| hash32.pair hash32).encode x = some y :=
    Code.pair_isSome.mpr ⟨⟨_, rfl⟩, Code.pair_isSome.mpr ⟨⟨_, rfl⟩, ⟨_, rfl⟩⟩⟩
  have heq := valueMessage_inj (hwritten _) (hwritten _) h
  exact congrArg (·.2.1) heq

theorem rootMessage_inj (h : rootMessage crypto transactions = rootMessage crypto transactions') :
    (contentTop crypto transactions).headD .zero =
      (contentTop crypto transactions').headD .zero := by
  have hwritten (x : U32 × Hash) :
      ∃ y, (bytes.pair <| u32.pair hash32).encode (Bytes.ofString contentDomain, x) = some y :=
    Code.pair_isSome.mpr ⟨contentDomain_written, Code.pair_isSome.mpr ⟨⟨_, rfl⟩, ⟨_, rfl⟩⟩⟩
  have heq := valueMessage_inj (hwritten _) (hwritten _) h
  exact congrArg (·.2.2) heq

theorem profileMessage_inj (h : profileMessage policy = profileMessage policy') :
    policy.maxChunkBytes = policy'.maxChunkBytes := by
  have hwritten (x : U16 × U8 × U32) : ∃ y, (u16.pair <| u8.pair u32).encode x = some y :=
    Code.pair_isSome.mpr ⟨⟨_, rfl⟩, Code.pair_isSome.mpr ⟨⟨_, rfl⟩, ⟨_, rfl⟩⟩⟩
  have heq := valueMessage_inj (hwritten _) (hwritten _) h
  exact congrArg (·.2.2) heq

section
variable {policy' : DaPolicy} {authorId' : Bytes} {authorSequence' : U64}
  {transactions' : List Bytes} {batch' : UnsignedTransactionBatch}
  (h : Built crypto policy authorId authorSequence transactions batch)
  (h' : Built crypto policy' authorId' authorSequence' transactions' batch')
  (hfree : Set.InjOn crypto.sha256 {m | m ∈ boundMessages crypto policy transactions batch ∨
    m ∈ boundMessages crypto policy' transactions' batch'})
include h h' hfree

theorem Built.envelope_eq (hid : batch.batchId = batch'.batchId) :
    batch.envelope = batch'.envelope := by
  have hwritten := h.identified
  have hwritten' := h'.identified
  simp only [DaBatchEnvelope.batchId, bind_eq_ok] at hwritten hwritten'
  obtain ⟨_, -, hdigest⟩ := hwritten
  obtain ⟨_, -, hdigest'⟩ := hwritten'
  obtain ⟨hsome, hhash⟩ := sha256_valueMessage hdigest
  obtain ⟨hsome', hhash'⟩ := sha256_valueMessage hdigest'
  refine valueMessage_inj hsome hsome' (hfree (.inl List.mem_cons_self)
    (.inr List.mem_cons_self) ?_)
  exact hhash.trans (hid.trans hhash'.symm)

theorem Built.contentLeaves_eq (henvelope : batch.envelope = batch'.envelope) :
    contentLeaves crypto transactions = contentLeaves crypto transactions' := by
  have hlength : transactions.length = transactions'.length := by
    rw [← h.itemCount, ← h'.itemCount, henvelope]
  have hroot : rootMessage crypto transactions = rootMessage crypto transactions' :=
    hfree (.inl (by simp [boundMessages])) (.inr (by simp [boundMessages]))
      (by rw [h.contentRoot, h'.contentRoot, henvelope])
  have htop {l : List Bytes} (hne : l ≠ []) : (contentTop crypto l).length = 1 :=
    Merkle.length_top _ (by simpa [contentLeaves] using hne) (by simp [contentLeaves])
  obtain ⟨x, hx⟩ := List.length_eq_one_iff.mp (htop h.nonempty)
  obtain ⟨y, hy⟩ := List.length_eq_one_iff.mp (htop h'.nonempty)
  have hhead := rootMessage_inj hroot
  rw [hx, hy] at hhead
  obtain rfl : x = y := hhead
  refine @Merkle.top_inj _ _ _ transactions.length 0 (parentHash crypto contentDomain)
    (by simpa [contentLeaves] using hlength) ?_ fun p hp q hq hlevel heq => ?_
  · rw [contentTop] at hx hy
    rw [hx, hlength, hy]
  · rw [hlength] at hq
    have hmem : parentMessage contentDomain p.1 p.2.1 p.2.2 ∈ parentMessages crypto transactions :=
      List.mem_map_of_mem hp
    have hmem' : parentMessage contentDomain q.1 q.2.1 q.2.2 ∈
        parentMessages crypto transactions' :=
      List.mem_map_of_mem hq
    have hmessage := hfree (.inl (by simp [boundMessages, hmem]))
      (.inr (by simp [boundMessages, hmem'])) heq
    rw [hlevel] at hmessage
    exact parentMessage_inj hmessage

theorem Built.transactions_eq (henvelope : batch.envelope = batch'.envelope) :
    transactions = transactions' := by
  have hleaves := h.contentLeaves_eq h' hfree henvelope
  have hlength : transactions.length = transactions'.length := by
    rw [← h.itemCount, ← h'.itemCount, henvelope]
  refine List.ext_getElem hlength fun index hindex hindex' => ?_
  have hmem : (transactions[index], index) ∈ transactions.zipIdx :=
    List.mem_zipIdx_iff_getElem?.mpr (List.getElem?_eq_getElem hindex)
  have hmem' : (transactions'[index], index) ∈ transactions'.zipIdx :=
    List.mem_zipIdx_iff_getElem?.mpr (List.getElem?_eq_getElem hindex')
  have hleaf : crypto.sha256 (leafMessage crypto (transactions[index], index)) =
      crypto.sha256 (leafMessage crypto (transactions'[index], index)) := by
    have hget := congrArg (·[index]?) hleaves
    simpa [contentLeaves, hindex, hindex'] using hget
  have hitem := leafMessage_inj (hfree
    (.inl (by simp [boundMessages, List.mem_map_of_mem hmem]))
      (.inr (by simp [boundMessages, List.mem_map_of_mem hmem'])) hleaf)
  have hmessage := hfree (.inl
    (by simp [boundMessages, List.mem_map_of_mem (List.getElem_mem hindex)]))
    (.inr (by simp [boundMessages, List.mem_map_of_mem (List.getElem_mem hindex')])) hitem
  exact valueMessage_inj (h.items _ (List.getElem_mem hindex))
    (h'.items _ (List.getElem_mem hindex')) hmessage

theorem Built.bound (hid : batch.batchId = batch'.batchId) :
    transactions = transactions' ∧ batch.contentBytes = batch'.contentBytes ∧
    batch.chunks = batch'.chunks := by
  have henvelope := h.envelope_eq h' hfree hid
  have htransactions := h.transactions_eq h' hfree henvelope
  have hcontent : batch.contentBytes = batch'.contentBytes :=
    Option.some.inj (h.content.symm.trans (htransactions ▸ h'.content))
  have hsize : policy.maxChunkBytes = policy'.maxChunkBytes := profileMessage_inj (hfree
    (.inl (by simp [boundMessages])) (.inr (by simp [boundMessages]))
      (by rw [h.profile, h'.profile, henvelope]))
  refine ⟨htransactions, hcontent, ?_⟩
  have hchunks := h.chunks
  rw [hcontent, hsize, henvelope] at hchunks
  exact Except.ok.inj (hchunks.symm.trans h'.chunks)

end

end

open UnsignedTransactionBatch in
/-- Batches keep their transactions, are restored from exactly the bytes of a batch that was built,
and are bound by their identifier where the hashed messages do not collide. -/
theorem batches_lossless_and_bound (crypto : Crypto) :
    (∀ committee policy authorId authorSequence transactions batch,
      build crypto committee policy authorId authorSequence transactions = .ok batch →
      (batch.chunks.map DaChunk.bytes).flatten = batch.contentBytes ∧
      (∀ chunk ∈ batch.chunks, chunk.bytes.length ≤ policy.maxChunkBytes.toNat) ∧
      strictDecode bytes.vec batch.contentBytes = .ok transactions) ∧
    (∀ committee policy envelopeBytes contentBytes chunksBytes batch,
      fromStored crypto committee policy envelopeBytes contentBytes chunksBytes = .ok batch ↔
      (∃ authorId authorSequence transactions,
        build crypto committee policy authorId authorSequence transactions = .ok batch) ∧
      canonicalBytes DaBatchEnvelope.code batch.envelope = .ok envelopeBytes ∧
      batch.contentBytes = contentBytes ∧
      canonicalBytes DaChunk.code.vec batch.chunks = .ok chunksBytes) ∧
    ∀ committee policy authorId authorSequence transactions batch committee' policy' authorId'
      authorSequence' transactions' batch',
      build crypto committee policy authorId authorSequence transactions = .ok batch →
      build crypto committee' policy' authorId' authorSequence' transactions' = .ok batch' →
      Set.InjOn crypto.sha256 {m | m ∈ boundMessages crypto policy transactions batch ∨
        m ∈ boundMessages crypto policy' transactions' batch'} →
      batch.batchId = batch'.batchId →
      transactions = transactions' ∧ batch.contentBytes = batch'.contentBytes ∧
      batch.chunks = batch'.chunks := by
  refine ⟨?_, ?_, ?_⟩
  · intro committee policy authorId authorSequence transactions batch hbuild
    have h := built_of_build hbuild
    obtain ⟨hflatten, hlength⟩ := @toChunks_spec _ _ batch.contentBytes h.chunkSize
    rw [← h.map_bytes] at hflatten hlength
    exact ⟨hflatten, List.forall_mem_map.mp hlength, h.decoded⟩
  · intro committee policy envelopeBytes contentBytes chunksBytes batch
    simp only [fromStored, bind_eq_ok, strictDecode_eq_ok, canonicalBytes_eq_ok, pure_eq_ok]
    constructor
    · rintro ⟨envelope, henvelope, chunks, hchunks, id, hid, _, hexact, rfl⟩
      simp only [verifyExact, bind_eq_ok, require_eq_ok] at hexact
      obtain ⟨_, -, transactions, -, rebuilt, hbuild, rfl⟩ := hexact
      exact ⟨⟨_, _, transactions, hbuild⟩, henvelope, rfl, hchunks⟩
    · rintro ⟨⟨authorId, authorSequence, transactions, hbuild⟩, henvelope, rfl, hchunks⟩
      have h := built_of_build hbuild
      exact ⟨_, henvelope, _, hchunks, _, h.identified, (), h.verifyExact hbuild, rfl⟩
  · intro committee policy authorId authorSequence transactions batch committee' policy' authorId'
      authorSequence' transactions' batch' hbuild hbuild' hfree hid
    exact (built_of_build hbuild).bound (built_of_build hbuild') hfree hid

/-- A policy of the sample committee with chunks of five bytes, and the one that leaves more time
for a repair. -/
def samplePolicy (committeeId : Hash) (repairWindowBlocks : U64) : DaPolicy :=
  ⟨1, sampleContext, 5, committeeId, [⟨[7], .ofByte 9, 1, 5, 14, 2⟩], 14, 9, 5, 3, 3, 20, 4,
    repairWindowBlocks⟩

abbrev buildSample (committee : DaCommitteeDescriptor) (committeeId : Hash)
    (repairWindowBlocks : U64) : DaResult UnsignedTransactionBatch :=
  UnsignedTransactionBatch.build sampleCrypto committee
    (samplePolicy committeeId repairWindowBlocks) [7] 1 [[42], [43]]

/-- The committee, its identifier and the batches of two transactions under the two policies. -/
def sampleBuild :
    DaResult (DaCommitteeDescriptor × Hash × UnsignedTransactionBatch ×
      UnsignedTransactionBatch) := do
  let committee ← sampleCommittee
  let committeeId ← committee.committeeId sampleCrypto
  let batch ← buildSample committee committeeId 4
  let batch' ← buildSample committee committeeId 6
  return (committee, committeeId, batch, batch')

/-- The conditions of the theorem, as a test. -/
def builtAlike (committee : DaCommitteeDescriptor) (committeeId : Hash)
    (batch batch' : UnsignedTransactionBatch) : Bool :=
  let messages := boundMessages sampleCrypto (samplePolicy committeeId 4) [[42], [43]] batch ++
    boundMessages sampleCrypto (samplePolicy committeeId 6) [[42], [43]] batch'
  buildSample committee committeeId 4 = .ok batch ∧ buildSample committee committeeId 6 =
    .ok batch' ∧ batch.batchId = batch'.batchId ∧ batch.chunks.length = 3 ∧
    ∀ x ∈ messages, ∀ y ∈ messages, sampleCrypto.sha256 x = sampleCrypto.sha256 y → x = y

theorem sampleBuild_alike : sampleBuild.map (fun (committee, committeeId, batch, batch') =>
    builtAlike committee committeeId batch batch') = .ok true := by decide +kernel

theorem sampleBuild_bound : ∃ committee committeeId batch batch',
    sampleBuild = .ok (committee, committeeId, batch, batch') ∧ batch.chunks.length = 3 ∧
    (batch.chunks.map DaChunk.bytes).flatten = batch.contentBytes ∧ batch.batchId = batch'.batchId ∧
    batch.chunks = batch'.chunks := by
  obtain ⟨⟨committee, committeeId, batch, batch'⟩, heq, htest⟩ := map_eq_ok.mp sampleBuild_alike
  simp only [builtAlike, decide_eq_true_eq] at htest
  obtain ⟨hbuild, hbuild', hid, hchunks, hfree⟩ := htest
  obtain ⟨hlossless, -, hbound⟩ := batches_lossless_and_bound sampleCrypto
  refine ⟨committee, committeeId, batch, batch', heq, hchunks, (hlossless _ _ _ _ _ _ hbuild).1,
    hid, ?_⟩
  refine (hbound _ _ _ _ _ _ _ _ _ _ _ _ hbuild hbuild' (fun x hx y hy => ?_) hid).2.2
  exact hfree x (List.mem_append.mpr hx) y (List.mem_append.mpr hy)

end Trillionnium.DataAvailability

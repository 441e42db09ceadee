import Seekira.Analysis.RememberedStreams

/-!
# Stream indices while a file is opened

Every access to a table with one entry per stream is in range unless the container has no stream
when the seek stream is chosen, or the first packets are read from a stream that probing has not
found.  Both are conditions on what FFmpeg gives out.
-/

set_option autoImplicit false

namespace Seekira.Model.OpenParser

open Library

variable {F : FFmpegInput}

/-- An access reads or writes an entry that the table has. -/
def InRange : ParserEvent → Prop
  | .access _ index size => 0 ≤ index ∧ index < size
  | .reposition .. => True
  | .returned .. => True

/-- The numbers of streams: those worked with, those of the container, those of the tables. -/
structure Sized (count : Int) (streams size : Nat) (p : OpenParser) : Prop where
  streamCount : p.tables.streamCount = count
  nbStreams : p.nbStreams = streams
  tableSize : p.tableSize = size

/-- An index below the numbers of streams is in range for every table that is used. -/
theorem Sized.lt_tableCount {count : Int} {streams size : Nat} {p : OpenParser}
    (hp : Sized count streams size p) {i : Int} (hstreams : i < streams) (hsize : i < size)
    {table : StreamTable} (hdts : table = .dtsShifts → p.tables.dtsShifts.isSome = true) :
    i < p.tableCount table := by
  cases table with
  | streams =>
    change i < p.nbStreams
    rw [hp.nbStreams]
    exact hstreams
  | dtsShifts =>
    change i < if p.tables.dtsShifts.isSome then (p.tableSize : Int) else 0
    rw [if_pos (hdts rfl), hp.tableSize]
    exact hsize
  | timeShift | genPts | firstStreamPktReceived =>
    change i < p.tableSize
    rw [hp.tableSize]
    exact hsize

/-! ## Accesses within a seek -/

section Seek

variable {count : Int} {streams size : Nat}

/-- The procedure keeps the numbers of streams and makes accesses in range. -/
abbrev Bounded (count : Int) (streams size : Nat) {α : Type} (q : Opening α) : Prop :=
  Recorded.Lists (Sized count streams size) InRange q

theorem bounded_modifyTables {f : ParserFF → ParserFF}
    (hf : ∀ m, (f m).streamCount = m.streamCount) :
    Bounded count streams size (modifyTables f) :=
  Recorded.lists_modify fun p hp => ⟨(hf p.tables).trans hp.streamCount, hp.nbStreams, hp.tableSize⟩

theorem bounded_reposition (request : Reposition) :
    Bounded count streams size (reposition F request) := by
  intro p hp
  rw [reposition_apply]
  refine ⟨⟨hp.streamCount, hp.nbStreams, hp.tableSize⟩, fun e he => ?_⟩
  obtain rfl := List.mem_singleton.mp he
  trivial

/-- An access is in range where the size of the table is known. -/
theorem bounded_access {table : StreamTable} {index : Int} (hindex : 0 ≤ index)
    (hsize : ∀ p, Sized count streams size p → index < p.tableCount table) :
    Bounded count streams size (access table index) := by
  intro p hp
  refine ⟨hp, fun e he => ?_⟩
  obtain rfl := List.mem_singleton.mp he
  exact ⟨hindex, hsize p hp⟩

theorem bounded_accessAll {tables : List StreamTable} {indices : List Int}
    (hsize : ∀ p, Sized count streams size p → ∀ i ∈ indices, 0 ≤ i ∧ ∀ t ∈ tables,
      i < p.tableCount t) :
    Bounded count streams size (accessAll tables indices) := by
  refine Recorded.lists_get_bind fun p hp => Recorded.lists_notes fun e he => ?_
  simp only [List.mem_flatMap, List.mem_map] at he
  obtain ⟨i, hi, t, ht, rfl⟩ := he
  exact ⟨(hsize p hp i hi).1, (hsize p hp i hi).2 t ht⟩

theorem bounded_isCover {index : Int} (hindex : 0 ≤ index) (hstreams : index < streams) :
    Bounded count streams size (isCover F index) := by
  refine Recorded.lists_get_bind fun p hp => ?_
  split
  · exact Recorded.lists_pure _
  · refine Recorded.lists_bind (bounded_access hindex fun p' hp' => ?_)
      (fun _ => Recorded.lists_pure _)
    change index < p'.nbStreams
    rw [hp'.nbStreams]
    exact hstreams

theorem bounded_clearChapters : Bounded count streams size
    (modifyTables fun m => { m with currentChapter := fun _ => none }) :=
  bounded_modifyTables fun _ => rfl

theorem bounded_restartAll (time : TimestampFF) : Bounded count streams size (restartAll time) := by
  refine Recorded.lists_get_bind fun p hp => ?_
  split
  · exact Recorded.lists_bind (bounded_modifyTables fun _ => rfl)
      (fun _ => Recorded.lists_pure _)
  · exact Recorded.lists_pure _

theorem bounded_restartStream {index : Int} (time : TimestampFF) (hindex : 0 ≤ index)
    (hsize : index < size) : Bounded count streams size (restartStream index time) := by
  refine Recorded.lists_get_bind fun p hp => ?_
  split
  · refine Recorded.lists_bind (bounded_access hindex fun p' hp' => ?_) (fun _ => ?_)
    · change index < p'.tableSize
      rw [hp'.tableSize]
      exact hsize
    · exact Recorded.lists_bind (bounded_modifyTables fun _ => rfl) fun _ => Recorded.lists_pure _
  · exact Recorded.lists_pure _

theorem bounded_checkSeek (index : Int) (time : TimestampFF) :
    Bounded count streams size (checkSeek index time) := by
  refine Recorded.lists_get_bind fun p hp => ?_
  split
  · exact Recorded.lists_throw _
  · split
    · exact Recorded.lists_throw _
    · split
      · exact Recorded.lists_throw _
      · exact Recorded.lists_pure _

theorem bounded_seekImage (index : Int) (time : TimestampFF) :
    Bounded count streams size (seekImage F index time) := by
  refine Recorded.lists_get_bind fun p hp => ?_
  split
  · exact Recorded.lists_bind (bounded_reposition _) (fun _ => Recorded.lists_pure _)
  · exact Recorded.lists_pure _

theorem bounded_checkMpegTs (index : Int) : Bounded count streams size (checkMpegTs F index) := by
  refine Recorded.lists_get_bind fun p hp => ?_
  split
  · exact Recorded.lists_throw _
  · exact Recorded.lists_pure _

/-- The first `n` indices. -/
theorem mem_streamIndices {n : Nat} {i : Int} (h : i ∈ streamIndices n) : 0 ≤ i ∧ i < n := by
  unfold streamIndices at h
  simp only [List.mem_map, List.mem_range] at h
  obtain ⟨k, hk, rfl⟩ := h
  exact ⟨Int.natCast_nonneg k, Int.ofNat_lt.mpr hk⟩

theorem bounded_fillAllGenPts (time : TimestampFF) (hstreams : count ≤ streams)
    (hsize : count ≤ size) : Bounded count streams size (fillAllGenPts time) := by
  refine Recorded.lists_get_bind fun p hp => ?_
  refine Recorded.lists_bind (bounded_accessAll fun p' hp' i hi => ?_)
    (fun _ => bounded_modifyTables fun _ => rfl)
  obtain ⟨hpos, hlt⟩ := mem_streamIndices hi
  have hcount := hp.streamCount
  refine ⟨hpos, fun t ht => ?_⟩
  rcases List.mem_cons.mp ht with rfl | ht
  · change i < p'.nbStreams
    rw [hp'.nbStreams]
    omega
  · obtain rfl := List.mem_singleton.mp ht
    change i < p'.tableSize
    rw [hp'.tableSize]
    omega

theorem bounded_isCompressedSwf : Bounded count streams size (isCompressedSwf F) := by
  refine Recorded.lists_get_bind fun p hp => ?_
  split
  · exact Recorded.lists_pure _
  · split
    · exact Recorded.lists_pure _
    · exact Recorded.lists_throw _

theorem bounded_forgetFirstApng {index : Int} (time : TimestampFF) (hindex : 0 ≤ index)
    (hsize : index < size) : Bounded count streams size (forgetFirstApng index time) := by
  refine Recorded.lists_get_bind fun p hp => ?_
  split
  · refine Recorded.lists_bind (bounded_access hindex fun p' hp' => ?_)
      fun _ => bounded_modifyTables fun _ => rfl
    change index < p'.tableSize
    rw [hp'.tableSize]
    exact hsize
  · exact Recorded.lists_pure _

theorem bounded_seekByBytes (index : Int) (time : TimestampFF) (binary : Bool) :
    Bounded count streams size (seekByBytes F index time binary) := by
  refine Recorded.lists_get_bind fun p hp => ?_
  split
  · exact bounded_reposition _
  · exact Recorded.lists_pure _

theorem bounded_seekQuickTime (time : TimestampFF) :
    Bounded count streams size (seekQuickTime F time) :=
  Recorded.lists_ite (bounded_reposition _) (Recorded.lists_pure _)

theorem bounded_seekByTime (index : Int) (forward : Bool) (streamTime : TimestampFF) :
    Bounded count streams size (seekByTime F index forward streamTime) :=
  Recorded.lists_ite (bounded_reposition _) (bounded_reposition _)

theorem bounded_seekNearZero (bounds : List Int) :
    Bounded count streams size (seekNearZero F bounds) := by
  induction bounds with
  | nil => exact Recorded.lists_pure _
  | cons pos rest ih =>
    refine Recorded.lists_bind (bounded_reposition _) fun done => ?_
    exact Recorded.lists_ite (Recorded.lists_pure _) ih

theorem bounded_seekLast (time : TimestampFF) : Bounded count streams size (seekLast F time) := by
  refine Recorded.lists_ite ?_ (Recorded.lists_throw _)
  refine Recorded.lists_bind (bounded_seekNearZero _) fun done => ?_
  exact Recorded.lists_ite (Recorded.lists_pure _) (Recorded.lists_throw _)

theorem bounded_seekPosition (index : Int) (time : TimestampFF) (binary forward : Bool)
    (streamTime : TimestampFF) :
    Bounded count streams size (seekPosition F index time binary forward streamTime) := by
  refine Recorded.lists_bind (bounded_seekByBytes _ _ _) fun done => ?_
  refine Recorded.lists_ite (Recorded.lists_pure _) ?_
  refine Recorded.lists_bind (bounded_seekQuickTime _) fun done => ?_
  refine Recorded.lists_ite (Recorded.lists_pure _) ?_
  refine Recorded.lists_bind (bounded_seekByTime _ _ _) fun done => ?_
  exact Recorded.lists_ite (Recorded.lists_pure _) (bounded_seekLast _)

/-- The streams copied when the file is opened again are streams of both containers. -/
theorem only_reopen (p : OpenParser) : Recorded.Only InRange (reopen F) p := by
  unfold reopen
  rw [Recorded.only_get_bind_iff]
  split
  · exact Recorded.only_throw _ _
  · rename_i n ahead hopened
    rw [Recorded.Only, accessAll_bind_apply]
    intro e he
    rcases List.mem_append.mp he with he | he
    · simp only [List.mem_flatMap, List.mem_map, List.mem_range, List.mem_singleton] at he
      obtain ⟨i, ⟨k, hk, rfl⟩, t, rfl, rfl⟩ := he
      refine ⟨Int.natCast_nonneg k, ?_⟩
      change (k : Int) < p.nbStreams
      omega
    · cases he

/-- After an SWF was opened again the seek is over. -/
theorem only_seekSwf_bind {forward : Bool} {time : TimestampFF} {binary : Bool}
    {f : Option (TimestampFF × Bool) → Opening Unit}
    (hnone : ∀ p, Recorded.Only InRange (f none) p)
    (hsome : ∀ x p, Sized count streams size p → Recorded.Only InRange (f (some x)) p)
    {p : OpenParser} (hp : Sized count streams size p) :
    Recorded.Only InRange (seekSwf F forward time binary >>= f) p := by
  unfold seekSwf
  rw [Recorded.bind_assoc, Recorded.only_get_bind_iff]
  split
  · exact hsome _ p hp
  · split
    · exact hnone p
    · rw [Recorded.bind_assoc]
      refine Recorded.only_bind_of_lists bounded_isCompressedSwf (fun compressed p hp => ?_) hp
      split
      · rw [Recorded.bind_assoc]
        exact (only_reopen p).bind fun _ => hnone
      · exact hsome _ p hp

/-- The seek in a stream of the file, with tables, is in range. -/
theorem only_seekStream {index : Int} (time : TimestampFF) (binary : Bool) (hindex : 0 ≤ index)
    (hstreams : index < streams) (hsize : index < size) {p : OpenParser}
    (hp : Sized count streams size p) :
    Recorded.Only InRange (seekStream F index time binary) p := by
  have haccess : Bounded count streams size (accessAll [.genPts, .streams] [index]) := by
    refine bounded_accessAll fun p hp i hi => ?_
    obtain rfl := List.mem_singleton.mp hi
    refine ⟨hindex, fun t ht => ?_⟩
    rcases List.mem_cons.mp ht with rfl | ht
    · change i < p.tableSize
      rw [hp.tableSize]
      exact hsize
    · obtain rfl := List.mem_singleton.mp ht
      change i < p.nbStreams
      rw [hp.nbStreams]
      exact hstreams
  unfold seekStream
  refine Recorded.only_bind_of_lists haccess (fun _ p hp => ?_) hp
  rw [Recorded.only_get_bind_iff]
  split
  · exact Recorded.only_pure _ _
  · refine only_seekSwf_bind (Recorded.only_pure _) (fun x p hp => ?_) hp
    exact Recorded.only_bind_of_lists (bounded_forgetFirstApng x.1 hindex hsize)
      (fun _ p hp => (bounded_seekPosition _ _ _ _ _).only hp) hp

/-- A seek of a stream that the parser works with makes accesses in range. -/
theorem only_seek {index : Int} (time : TimestampFF) (hindex : 0 ≤ index) (hcount : index < count)
    (hstreams : count ≤ streams) (hsize : count ≤ size) {p : OpenParser}
    (hp : Sized count streams size p) : Recorded.Only InRange (seek F index time) p := by
  unfold seek
  have hlt : index < streams := by omega
  refine Recorded.only_bind_of_lists (bounded_isCover hindex hlt) (fun cover p hp => ?_) hp
  split
  · exact Recorded.only_pure _ _
  · refine Recorded.only_bind_of_lists bounded_clearChapters (fun _ p hp => ?_) hp
    refine Recorded.only_bind_of_lists (bounded_restartAll _) (fun time p hp => ?_) hp
    refine Recorded.only_bind_of_lists (bounded_restartStream _ hindex (by omega))
      (fun time p hp => ?_) hp
    refine Recorded.only_bind_of_lists (bounded_checkSeek _ _) (fun _ p hp => ?_) hp
    refine Recorded.only_bind_of_lists (bounded_seekImage _ _) (fun _ p hp => ?_) hp
    refine Recorded.only_bind_of_lists (bounded_checkMpegTs _) (fun _ p hp => ?_) hp
    rw [Recorded.only_get_bind_iff]
    refine Recorded.only_bind_of_lists (bounded_fillAllGenPts _ hstreams hsize)
      (fun _ p hp => ?_) hp
    exact only_seekStream _ _ hindex hlt (by omega) hp

end Seek

/-! ## After the first packets -/

/-- The streams worked with have entries in the tables and in the container. -/
structure Fits (p : OpenParser) : Prop where
  count : 0 ≤ p.tables.streamCount
  streams : p.tables.streamCount ≤ p.nbStreams
  tables : p.tables.streamCount ≤ p.tableSize

/-- The packet belongs to a stream with entries. -/
structure InTables (p : OpenParser) (packet : AVPacket) : Prop where
  nonneg : 0 ≤ packet.streamIndex
  streams : packet.streamIndex < p.nbStreams
  tables : packet.streamIndex < p.tableSize

theorem Sized.refl (p : OpenParser) : Sized p.tables.streamCount p.nbStreams p.tableSize p :=
  ⟨rfl, rfl, rfl⟩

theorem bounded_shiftByFirstPackets {count : Int} {streams size : Nat}
    {firstPackets : List AVPacket} (hpackets : ∀ packet ∈ firstPackets, 0 ≤ packet.streamIndex ∧
      packet.streamIndex < streams ∧ packet.streamIndex < size) :
    Bounded count streams size (shiftByFirstPackets F firstPackets) := by
  induction firstPackets with
  | nil => exact Recorded.lists_pure _
  | cons packet rest ih =>
    obtain ⟨hnonneg, hstreams, hsize⟩ := hpackets packet List.mem_cons_self
    refine Recorded.lists_get_bind fun p hp => ?_
    refine Recorded.lists_bind (Recorded.lists_notes fun e he => ?_) fun _ => ?_
    · obtain ⟨table, rfl, hdts⟩ := mem_packetShiftAccesses he
      exact ⟨hnonneg, hp.lt_tableCount hstreams hsize hdts⟩
    · refine Recorded.lists_bind (bounded_modifyTables fun m => ?_)
        fun _ => ih fun packet' h => hpackets packet' (List.mem_cons_of_mem _ h)
      rw [(m.sameButShifts_shiftByFirstPacket F.longNameMpegTs packet).frame]

theorem bounded_detectTimeShift {count : Int} {streams size : Nat} (hstreams : count ≤ streams)
    (hsize : count ≤ size) {firstPackets : List AVPacket}
    (hpackets : ∀ packet ∈ firstPackets, 0 ≤ packet.streamIndex ∧
      packet.streamIndex < streams ∧ packet.streamIndex < size) :
    Bounded count streams size (detectTimeShift F firstPackets) := by
  refine Recorded.lists_get_bind fun p hp => ?_
  refine Recorded.lists_bind (Recorded.lists_notes fun e he => ?_) fun _ => ?_
  · obtain ⟨i, hi, he⟩ := List.mem_flatMap.mp he
    obtain ⟨table, rfl, hdts⟩ := mem_containerShiftAccesses he
    obtain ⟨hnonneg, hlt⟩ := mem_streamIndices hi
    have hcount := hp.streamCount
    exact ⟨hnonneg, hp.lt_tableCount (by omega) (by omega) hdts⟩
  · exact Recorded.lists_bind (bounded_modifyTables fun _ => rfl)
      fun _ => bounded_shiftByFirstPackets hpackets

/-- The parser can choose a seek stream. -/
def Usable (p : OpenParser) : Prop := Fits p ∧ p.nbStreams ≠ 0

/-- The detection of chapters is in range. -/
theorem usable_detectChapters : Recorded.Lists Usable InRange (detectChapters F) := by
  refine Recorded.lists_get_bind fun p hp => Recorded.lists_ite ?_ (Recorded.lists_pure _)
  refine Recorded.lists_get_bind fun p hp => Recorded.lists_ite ?_ ?_
  · exact Recorded.lists_modify fun p hp => ⟨⟨hp.1.count, hp.1.streams, hp.1.tables⟩, hp.2⟩
  · split
    · exact Recorded.lists_throw _
    · rename_i found hfound
      refine Recorded.lists_modify fun p hp => ⟨⟨hp.1.count, ?_, hp.1.tables⟩, ?_⟩
      · have hstreams := hp.1.streams
        change p.tables.streamCount ≤ (p.nbStreams + found.newStreams : Nat)
        omega
      · have hsome := hp.2
        change p.nbStreams + found.newStreams ≠ 0
        omega

/-- Streams are only added while packets are read. -/
theorem le_streamsAfterAll (hlawful : F.Lawful) (ahead rest : List AVPacket) (streams : Nat) :
    streams ≤ streamsAfterAll F ahead rest streams := by
  unfold streamsAfterAll
  generalize ahead.take (ahead.length - rest.length) = packets
  induction packets generalizing streams with
  | nil => exact Nat.le_refl _
  | cons packet packets ih =>
    exact Nat.le_trans (hlawful.streamsAfter packet streams) (ih _)

/-- Reading may find streams, and loses none. -/
theorem usable_read (hlawful : F.Lawful) : Recorded.Lists Usable InRange (read F) := by
  intro p hp
  have hcount := p.tables.sameStreams_readPacket.streamCount
  have hle := le_streamsAfterAll hlawful p.tables.ahead p.tables.readPacket.2.ahead p.nbStreams
  obtain ⟨⟨hnonneg, hstreams, htables⟩, hsome⟩ := hp
  have hread : Usable { p with
      tables := p.tables.readPacket.2
      nbStreams := streamsAfterAll F p.tables.ahead p.tables.readPacket.2.ahead p.nbStreams } := by
    refine ⟨⟨?_, ?_, ?_⟩, ?_⟩
    · rwa [hcount]
    · rw [hcount]
      exact Int.le_trans hstreams (Int.ofNat_le.mpr hle)
    · rwa [hcount]
    · exact Nat.ne_of_gt (Nat.lt_of_lt_of_le (Nat.pos_of_ne_zero hsome) hle)
  unfold read
  rw [Recorded.get_bind_apply, Recorded.modify_bind_apply]
  cases p.tables.readPacket.1 with
  | none => exact ⟨hread, List.forall_mem_nil _⟩
  | some packet =>
    refine ⟨⟨⟨hread.1.count, hread.1.streams, hread.1.tables⟩, hread.2⟩, fun e he => ?_⟩
    obtain rfl := List.mem_singleton.mp he
    trivial

theorem usable_detectFpsLoop (hlawful : F.Lawful) (n : Nat) (probe : FpsProbe) :
    Recorded.Lists Usable InRange (detectFpsLoop F n probe) := by
  induction n generalizing probe with
  | zero => exact Recorded.lists_pure _
  | succ n ih =>
    refine Recorded.lists_bind (usable_read hlawful) fun packet => ?_
    split
    · exact Recorded.lists_pure _
    · refine Recorded.lists_get_bind fun p hp => ?_
      exact Recorded.lists_ite (Recorded.lists_pure _) (ih _)

theorem usable_detectFps (hlawful : F.Lawful) :
    Recorded.Lists Usable InRange (detectFps F) := by
  refine Recorded.lists_get_bind fun p hp => Recorded.lists_ite ?_ ?_
  · exact Recorded.lists_pure _
  · exact usable_detectFpsLoop hlawful _ _

theorem usable_flush : Recorded.Lists Usable InRange (flush F) := by
  refine Recorded.lists_bind ?_ fun compressed => Recorded.lists_ite (Recorded.lists_pure _) ?_
  · refine Recorded.lists_get_bind fun p hp => Recorded.lists_ite (Recorded.lists_pure _) ?_
    split
    · exact Recorded.lists_pure _
    · exact Recorded.lists_throw _
  · exact Recorded.lists_modify fun p hp => ⟨⟨hp.1.count, hp.1.streams, hp.1.tables⟩, hp.2⟩

/-- A file with streams has one to seek in. -/
theorem seekStream_nonneg {n : Nat} (hsome : n ≠ 0) : 0 ≤ F.seekStream n := by
  unfold FFmpegInput.seekStream
  rw [if_neg hsome]
  dsimp only
  split
  · split
    · exact Int.le_refl 0
    · omega
  · omega

/-- Where there is a stream, the seek stream is one, or is refused. -/
theorem only_seekToStart {p : OpenParser} (hp : Usable p) :
    Recorded.Only InRange (seekToStart F) p := by
  unfold seekToStart
  rw [Recorded.only_get_bind_iff]
  split
  · rename_i hlt
    exact only_seek 0 (seekStream_nonneg hp.2) hlt hp.1.streams hp.1.tables (Sized.refl p)
  · exact Recorded.only_throw _ _

/-- What `find_stream_info` does after the shifts and the chapters. -/
def settle (F : FFmpegInput) : Opening Bool := do
  detectFps F
  flush F
  seekToStart F
  return true

theorem only_settle (hlawful : F.Lawful) {p : OpenParser} (hp : Usable p) :
    Recorded.Only InRange (settle F) p := by
  refine Recorded.only_bind_of_lists (usable_detectFps hlawful) (fun _ p hp => ?_) hp
  refine Recorded.only_bind_of_lists usable_flush (fun _ p hp => ?_) hp
  exact (only_seekToStart hp).bind fun _ => Recorded.only_pure _

/-! ## A container without streams -/

/-- There is no stream, and nothing stops opening before the seek to the start. -/
structure Bare (F : FFmpegInput) (p : OpenParser) : Prop where
  nbStreams : p.nbStreams = 0
  streamCount : p.tables.streamCount = 0
  formatIMG : p.formatIMG = false
  readable : p.tables.formatSWF = true → F.compressedSwf.isSome = true

/-- The procedure returns, and there still is no stream. -/
def StaysBare (F : FFmpegInput) {α : Type} (q : Opening α) (p : OpenParser) : Prop :=
  ∃ a p' events, q p = ((.ok a, p'), events) ∧ Bare F p'

/-- What leaves the parser bare does not save what follows. -/
theorem StaysBare.not_only_bind {α β : Type} {q : Opening α} {f : α → Opening β} {p : OpenParser}
    (h : StaysBare F q p)
    (hf : ∀ a p', Bare F p' → ¬Recorded.Only InRange (f a) p') :
    ¬Recorded.Only InRange (q >>= f) p := by
  obtain ⟨a, p', events, hq, hbare⟩ := h
  exact fun honly => hf a p' hbare (honly.bind_right hq)

/-- The look for a compressed file, where it can be told. -/
theorem isCompressedSwf_apply {p : OpenParser}
    (h : p.tables.formatSWF = true → F.compressedSwf.isSome = true) :
    isCompressedSwf F p =
      ((.ok (p.tables.formatSWF && F.compressedSwf.getD false), p), []) := by
  unfold isCompressedSwf
  rw [Recorded.get_bind_apply]
  cases hswf : p.tables.formatSWF with
  | false => rfl
  | true =>
    obtain ⟨compressed, hcompressed⟩ := Option.isSome_iff_exists.mp (h hswf)
    rw [hcompressed]
    rfl

theorem staysBare_detectTimeShift {p : OpenParser} (hp : Bare F p) :
    StaysBare F (detectTimeShift F []) p :=
  ⟨_, _, _, rfl, hp.nbStreams, hp.streamCount, hp.formatIMG, hp.readable⟩

theorem staysBare_detectChapters {p : OpenParser} (hp : Bare F p) :
    StaysBare F (detectChapters F) p := by
  unfold StaysBare detectChapters detectVobChapters
  rw [Recorded.get_bind_apply]
  split
  · rw [Recorded.get_bind_apply, if_pos (Int.le_of_eq hp.streamCount)]
    exact ⟨_, _, _, rfl, hp.nbStreams, hp.streamCount, hp.formatIMG, hp.readable⟩
  · exact ⟨_, _, _, rfl, hp⟩

theorem staysBare_detectFps {p : OpenParser} (hp : Bare F p) : StaysBare F (detectFps F) p := by
  unfold StaysBare detectFps
  rw [Recorded.get_bind_apply, if_pos (by simp [hp.streamCount, streamIndices])]
  exact ⟨_, _, _, rfl, hp⟩

theorem staysBare_flush {p : OpenParser} (hp : Bare F p) : StaysBare F (flush F) p := by
  unfold StaysBare flush
  rw [Recorded.bind_ok (isCompressedSwf_apply hp.readable)]
  split
  · exact ⟨_, _, _, rfl, hp⟩
  · exact ⟨_, _, _, rfl, hp.nbStreams, hp.streamCount, hp.formatIMG, hp.readable⟩

/-- The seek stream is `-1` then, which is below the number of streams, and the tables are read
there. -/
theorem not_only_seekToStart {p : OpenParser} (hp : Bare F p) :
    ¬Recorded.Only InRange (seekToStart F) p := by
  have hstream : p.getSeekStream F = -1 := by
    unfold getSeekStream FFmpegInput.seekStream
    rw [if_pos hp.nbStreams]
  unfold seekToStart
  rw [Recorded.only_get_bind_iff, if_pos (by rw [hstream, hp.streamCount]; decide), hstream]
  unfold seek
  intro honly
  obtain ⟨_, p₁, _, hrun, h₁, rfl, -⟩ :=
    prepares_isCover (F := F) (-1) (p := p) fun h => h.1 hp.nbStreams
  have honly := honly.bind_right hrun
  rw [if_neg (by decide)] at honly
  obtain ⟨_, p₂, _, hrun, h₂, -, -⟩ := prepares_clearChapters p₁
  have honly := honly.bind_right hrun
  obtain ⟨time₁, p₃, _, hrun, h₃, htime₁, -⟩ := prepares_restartAll 0 p₂
  have honly := honly.bind_right hrun
  obtain rfl : time₁ = 0 := or_self_iff.mp htime₁
  obtain ⟨time₂, p₄, _, hrun, h₄, htime₂, -⟩ := prepares_restartStream (-1) 0 p₃
  have honly := honly.bind_right hrun
  obtain rfl : time₂ = 0 := or_self_iff.mp htime₂
  have halike : Alike p p₄ := ((h₁.trans h₂).trans h₃).trans h₄
  have hcount : -1 < p₄.tables.streamCount := by rw [halike.streamCount, hp.streamCount]; decide
  obtain ⟨_, p₅, _, hrun, h₅, -, -⟩ :=
    prepares_checkSeek (Int.le_refl 0) hcount (halike.formatIMG.trans hp.formatIMG)
  have honly := honly.bind_right hrun
  have halike := halike.trans h₅
  obtain ⟨_, p₆, _, hrun, h₆, -, -⟩ := prepares_seekImage (F := F) (-1) 0
    (halike.formatIMG.trans hp.formatIMG)
  have honly := honly.bind_right hrun
  have halike := halike.trans h₆
  obtain ⟨_, p₇, _, hrun, h₇, -, -⟩ := prepares_checkMpegTs (F := F) (-1) (p := p₆)
    fun h => h.2 (by rw [halike.getSeekStream, hstream])
  have honly := honly.bind_right hrun
  rw [Recorded.only_get_bind_iff] at honly
  obtain ⟨_, p₈, _, hrun, -, -, -⟩ := prepares_fillAllGenPts 0 p₇
  have honly := honly.bind_right hrun
  have hnegative := honly.of_bind (.access .genPts (-1) (p₈.tableCount .genPts)) List.mem_cons_self
  exact absurd hnegative.1 (by decide)

theorem not_only_settle {p : OpenParser} (hp : Bare F p) :
    ¬Recorded.Only InRange (settle F) p := by
  refine (staysBare_detectFps hp).not_only_bind fun _ p hp => ?_
  refine (staysBare_flush hp).not_only_bind fun _ p hp => ?_
  exact fun honly => not_only_seekToStart hp honly.of_bind

/-! ## The first packets -/

/-- The packets read until every one of the first `count` streams is received, at most `n`. -/
def firstPacketsRead (count : Nat) : Nat → (Int → Bool) → List AVPacket → List AVPacket
  | 0, _, _ => []
  | n + 1, received, ahead =>
    if (streamIndices count).all received then []
    else
      match ahead with
      | [] => []
      | packet :: rest =>
        packet :: firstPacketsRead count n (Function.update received packet.streamIndex true) rest

/-- The packet belongs to one of the first `count` streams. -/
def InStreams (count : Nat) (packet : AVPacket) : Prop :=
  0 ≤ packet.streamIndex ∧ packet.streamIndex < count

/-- The parser while the first packets are read. -/
structure Probing (F : FFmpegInput) (p : OpenParser) : Prop extends Fits p where
  formatIMG : p.formatIMG = false
  readable : p.tables.formatSWF = true → F.compressedSwf.isSome = true

/-- While no stream has come the parser is bare. -/
theorem Probing.bare {p : OpenParser} (hp : Probing F p) (hnone : p.nbStreams = 0) : Bare F p where
  nbStreams := hnone
  streamCount := by
    have hcount := hp.count
    have hstreams := hp.streams
    omega
  formatIMG := hp.formatIMG
  readable := hp.readable

/-- A packet taken belongs to a stream that the container then has. -/
theorem Probing.takePacket (hlawful : F.Lawful) {p : OpenParser} (hp : Probing F p)
    (packet : AVPacket) (rest : List AVPacket) : Probing F (takePacket F packet rest p) where
  count := hp.count
  streams := Int.le_trans hp.streams (Int.ofNat_le.mpr (hlawful.streamsAfter packet p.nbStreams))
  tables := hp.tables
  formatIMG := hp.formatIMG
  readable := hp.readable

/-- The stream of the packet is marked. -/
def marked (packet : AVPacket) (p : OpenParser) : OpenParser :=
  { p with
    tables := { p.tables with
      firstStreamPktReceived :=
        Function.update p.tables.firstStreamPktReceived packet.streamIndex true } }

/-- Marking a first packet, with its access. -/
theorem markFirst_apply (packet : AVPacket) (p : OpenParser) :
    markFirst packet p =
      ((.ok (!p.tables.firstStreamPktReceived packet.streamIndex), marked packet p),
        [.access .firstStreamPktReceived packet.streamIndex p.tableSize]) := by
  unfold markFirst
  rw [access_bind_apply, Recorded.get_bind_apply]
  split
  · rename_i hreceived
    have hsame : marked packet p = p := by
      unfold marked
      rw [Function.update_eq_self_iff.mpr hreceived.symm]
    rw [hsame, hreceived]
    rfl
  · rename_i hfirst
    rw [Bool.not_eq_true] at hfirst
    rw [hfirst]
    rfl

/-- A packet that is marked was taken from those ahead. -/
theorem Probing.marked (hlawful : F.Lawful) {p : OpenParser} (hp : Probing F p)
    (packet : AVPacket) (rest : List AVPacket) :
    Probing F (marked packet (OpenParser.takePacket F packet rest p)) where
  count := hp.count
  streams := (hp.takePacket hlawful packet rest).streams
  tables := hp.tables
  formatIMG := hp.formatIMG
  readable := hp.readable

/-- The packets that were read keep their streams when another one is read. -/
theorem InTables.marked (hlawful : F.Lawful) {p : OpenParser} {packet' : AVPacket}
    (h : InTables p packet') (packet : AVPacket) (rest : List AVPacket) :
    InTables (marked packet (OpenParser.takePacket F packet rest p)) packet' where
  nonneg := h.nonneg
  streams :=
    Int.lt_of_lt_of_le h.streams (Int.ofNat_le.mpr (hlawful.streamsAfter packet p.nbStreams))
  tables := h.tables

/-- A packet in range is in the tables once it was read. -/
theorem InStreams.marked (hlawful : F.Lawful) {p : OpenParser} {packet : AVPacket}
    (h : InStreams p.tableSize packet) (rest : List AVPacket) :
    InTables (marked packet (OpenParser.takePacket F packet rest p)) packet where
  nonneg := h.1
  streams := hlawful.packetStream packet p.nbStreams
  tables := h.2

/-- A container with a packet in the tables has a stream. -/
theorem InTables.nbStreams_ne_zero {p : OpenParser} {packet : AVPacket} (h : InTables p packet) :
    p.nbStreams ≠ 0 := by
  have hnonneg := h.nonneg
  have hstreams := h.streams
  omega

/-- What follows the first packets makes accesses in range exactly when there is a stream. -/
def NeedsStream (F : FFmpegInput) (f : List AVPacket → Opening Bool) : Prop :=
  ∀ firstPackets p, Probing F p → (∀ packet ∈ firstPackets, InTables p packet) →
    (Recorded.Only InRange (f firstPackets) p ↔ p.nbStreams ≠ 0)

/-- The loop looks up every packet it reads, and a packet it has read belongs to a stream. -/
theorem only_firstPacketsLoop_iff (hlawful : F.Lawful) {f : List AVPacket → Opening Bool}
    (hf : NeedsStream F f) (n : Nat) (firstPackets : List AVPacket) (p : OpenParser)
    (hp : Probing F p) (hfirst : ∀ packet ∈ firstPackets, InTables p packet) :
    Recorded.Only InRange (firstPacketsLoop F n firstPackets >>= f) p ↔
      (∀ packet ∈ firstPacketsRead p.tableSize n p.tables.firstStreamPktReceived p.tables.ahead,
        InStreams p.tableSize packet) ∧
      (p.nbStreams ≠ 0 ∨
        firstPacketsRead p.tableSize n p.tables.firstStreamPktReceived p.tables.ahead ≠ []) := by
  induction n generalizing firstPackets p with
  | zero =>
    unfold firstPacketsLoop firstPacketsRead
    rw [Recorded.only_pure_bind_iff, hf firstPackets p hp hfirst]
    simp
  | succ n ih =>
    unfold firstPacketsLoop firstPacketsRead
    rw [Recorded.bind_assoc, Recorded.only_get_bind_iff]
    unfold streamsReadComplete
    by_cases hcomplete : (streamIndices p.tableSize).all p.tables.firstStreamPktReceived = true
    · rw [if_pos hcomplete, if_pos hcomplete]
      rw [Recorded.only_pure_bind_iff, hf firstPackets p hp hfirst]
      simp
    · rw [if_neg hcomplete, if_neg hcomplete]
      cases hahead : p.tables.ahead with
      | nil =>
        rw [Recorded.only_pure_bind_iff, hf firstPackets p hp hfirst]
        simp
      | cons packet rest =>
        rw [Recorded.bind_assoc, Recorded.only_modify_bind_iff, Recorded.bind_assoc]
        by_cases hin : InStreams p.tableSize packet
        · have hread := hin.marked hlawful rest
          have haccess : ∀ e ∈ [ParserEvent.access .firstStreamPktReceived packet.streamIndex
              (takePacket F packet rest p).tableSize], InRange e := by
            intro e he
            obtain rfl := List.mem_singleton.mp he
            exact hin
          rw [Recorded.only_bind_iff (markFirst_apply packet _) haccess,
            ih _ _ (hp.marked hlawful packet rest) ?_]
          · change (∀ packet' ∈ firstPacketsRead p.tableSize n _ rest, _) ∧ _ ↔ _
            rw [List.forall_mem_cons, and_iff_left (.inl hread.nbStreams_ne_zero), and_iff_right hin,
              and_iff_left (.inr (List.cons_ne_nil _ _))]
            rfl
          · intro packet' h
            split at h
            · rcases List.mem_append.mp h with h | h
              · exact (hfirst packet' h).marked hlawful packet rest
              · obtain rfl := List.mem_singleton.mp h
                exact hread
            · exact (hfirst packet' h).marked hlawful packet rest
        · refine iff_of_false (fun honly => hin ?_) fun h => hin (h.1 packet List.mem_cons_self)
          refine honly.of_bind (.access .firstStreamPktReceived packet.streamIndex p.tableSize) ?_
          rw [markFirst_apply]
          exact List.mem_singleton_self _

/-- `detect_time_shift` needs a stream when what follows does. -/
theorem needsStream_detectTimeShift {next : Opening Bool}
    (husable : ∀ p, Usable p → Recorded.Only InRange next p)
    (hbare : ∀ p, Bare F p → ¬Recorded.Only InRange next p) :
    NeedsStream F fun firstPackets => detectTimeShift F firstPackets >>= fun _ => next := by
  intro firstPackets p hp hfirst
  constructor
  · intro honly hnone
    obtain rfl : firstPackets = [] := by
      rw [List.eq_nil_iff_forall_not_mem]
      intro packet h
      have hnonneg := (hfirst packet h).nonneg
      have hstreams := (hfirst packet h).streams
      omega
    exact (staysBare_detectTimeShift (hp.bare hnone)).not_only_bind (fun _ p hp => hbare p hp) honly
  · intro hsome
    refine Recorded.only_bind_of_lists (bounded_detectTimeShift hp.streams hp.tables fun packet h =>
      ⟨(hfirst packet h).nonneg, (hfirst packet h).streams, (hfirst packet h).tables⟩)
      (fun _ p' hp' => husable p' ⟨⟨?_, ?_, ?_⟩, ?_⟩) (Sized.refl p)
    · rw [hp'.streamCount]
      exact hp.count
    · rw [hp'.streamCount, hp'.nbStreams]
      exact hp.streams
    · rw [hp'.streamCount, hp'.tableSize]
      exact hp.tables
    · rw [hp'.nbStreams]
      exact hsome

theorem needsStream_apng (hlawful : F.Lawful) :
    NeedsStream F fun firstPackets => detectTimeShift F firstPackets >>= fun _ => settle F :=
  needsStream_detectTimeShift (fun _ hp => only_settle hlawful hp) fun _ hp => not_only_settle hp

/-- The opening of a file with chapters needs a stream. -/
theorem needsStream_chapters (hlawful : F.Lawful) :
    NeedsStream F fun firstPackets => detectTimeShift F firstPackets >>= fun _ =>
      detectChapters F >>= fun _ => settle F := by
  refine needsStream_detectTimeShift (fun p hp => ?_) fun p hp => ?_
  · exact Recorded.only_bind_of_lists usable_detectChapters
      (fun _ p hp => only_settle hlawful hp) hp
  · exact (staysBare_detectChapters hp).not_only_bind fun _ p hp => not_only_settle hp

/-! ## The start of the container -/

/-- FFmpeg's names of formats exclude each other. -/
structure OneFormat (F : FFmpegInput) (format : FileFormat) : Prop where
  apng : F.nameApng = true → format.formatSWF = false
  mpegTs : format.formatMpegTs = true → format.formatSWF = false

/-- Where the first packets are read from: the number of streams and the packets ahead once the
container was sought to its start, and `none` when that ends the opening. -/
def startRead (F : FFmpegInput) (format : FileFormat) (ahead : List AVPacket) :
    Option (Nat × List AVPacket) :=
  if format.formatSWF then
    match F.compressedSwf with
    | none => none
    | some false => some (F.probedStreams, (F.request 0 (.frame (-1) 0)).2)
    | some true =>
      if F.probedStreams = 0 then none
      else if F.attachedPic 0 || F.headerStreams ≠ 1 then some (F.probedStreams, ahead)
      else F.reopened 0
  else some (F.probedStreams, (F.request 0 (.file (-1) 0 0 0 false)).2)

/-- The parser when the first packets are to be read. -/
structure Ready (F : FFmpegInput) (format : FileFormat) (ahead : List AVPacket)
    (p : OpenParser) : Prop where
  tableSize : p.tableSize = F.probedStreams
  streamCount : p.tables.streamCount = F.probedStreams
  streams : F.probedStreams ≤ p.nbStreams
  noStream : F.probedStreams = 0 → p.nbStreams = 0
  formatIMG : p.formatIMG = false
  formatSWF : p.tables.formatSWF = format.formatSWF
  formatMpegTs : p.tables.formatMpegTs = format.formatMpegTs
  received : p.tables.firstStreamPktReceived = fun _ => false
  prevPktTimes : p.tables.prevPktTimes = fun _ => none
  requests : p.requests = 0
  lastSeekTs : p.lastSeekTs 0 = if F.headerStreams = 1 then some avNoPtsValue else none
  swfStreams : format.formatSWF = true → p.nbStreams = F.probedStreams
  swfAhead : format.formatSWF = true → p.tables.ahead = ahead

/-- How reading the first packets starts, or that it does not. -/
def Outcome (F : FFmpegInput) :
    Option (Nat × List AVPacket) → Except Fault Unit × OpenParser → Prop
  | none, r => ∃ e, r.1 = .error e
  | some (streams, ahead), r =>
    r.1 = .ok () ∧ Probing F r.2 ∧ r.2.tableSize = F.probedStreams ∧
      (r.2.nbStreams = 0 ↔ streams = 0) ∧
      r.2.tables.firstStreamPktReceived = (fun _ => false) ∧ r.2.tables.ahead = ahead

/-- The run makes accesses in range and ends with the outcome. -/
def Ends (P : Except Fault Unit × OpenParser → Prop) (q : Opening Unit) (p : OpenParser) : Prop :=
  P (q p).1 ∧ Recorded.Only InRange q p

variable {format : FileFormat} {ahead : List AVPacket}

/-- The procedure returns, makes accesses in range and leaves the parser ready. -/
def StaysReady (F : FFmpegInput) (format : FileFormat) (ahead : List AVPacket) {α : Type}
    (q : Opening α) (p : OpenParser) (a : α) : Prop :=
  ∃ p' events, q p = ((.ok a, p'), events) ∧ Ready F format ahead p' ∧ ∀ e ∈ events, InRange e

/-- What leaves the parser ready leaves the end to what follows. -/
theorem StaysReady.ends_bind {α : Type} {P : Except Fault Unit × OpenParser → Prop}
    {q : Opening α} {f : α → Opening Unit} {p : OpenParser} {a : α}
    (h : StaysReady F format ahead q p a)
    (hf : ∀ p', Ready F format ahead p' → Ends P (f a) p') : Ends P (q >>= f) p := by
  obtain ⟨p', events, hq, hready, hall⟩ := h
  obtain ⟨hP, honly⟩ := hf p' hready
  refine ⟨?_, (Recorded.only_bind_iff hq hall).mpr honly⟩
  rw [Recorded.bind_ok hq]
  exact hP

theorem ends_get_bind {P : Except Fault Unit × OpenParser → Prop} {f : OpenParser → Opening Unit}
    {p : OpenParser} (h : Ends P (f p) p) : Ends P (Recorded.get >>= f) p := h

/-- An exception ends the opening. -/
theorem ends_bind_error {α : Type} {q : Opening α} {f : α → Opening Unit} {p p' : OpenParser}
    {e : Fault} (hq : q p = ((.error e, p'), [])) : Ends (Outcome F none) (q >>= f) p := by
  refine ⟨⟨e, ?_⟩, Recorded.only_bind_error hq (List.forall_mem_nil _)⟩
  rw [Recorded.bind_error hq]

/-- The look for a cover leaves the parser ready. -/
theorem staysReady_isCover {p : OpenParser} (hp : Ready F format ahead p) :
    StaysReady F format ahead (isCover F 0) p
      (decide (F.probedStreams ≠ 0) && F.attachedPic 0) := by
  have hnone : p.nbStreams = 0 ↔ F.probedStreams = 0 := by
    have hstreams := hp.streams
    have hnoStream := hp.noStream
    omega
  have hcover := isCover_apply (F := F) 0 p
  rw [show decide (p.nbStreams ≠ 0) = decide (F.probedStreams ≠ 0) by simp [hnone]] at hcover
  refine ⟨p, _, hcover, hp, fun e he => ?_⟩
  split at he
  · cases he
  · obtain rfl := List.mem_singleton.mp he
    refine ⟨Int.le_refl 0, ?_⟩
    omega

theorem staysReady_clearChapters {p : OpenParser} (hp : Ready F format ahead p) :
    StaysReady F format ahead
      (modifyTables fun m => { m with currentChapter := fun _ => none }) p () :=
  ⟨_, [], rfl, ⟨hp.tableSize, hp.streamCount, hp.streams, hp.noStream, hp.formatIMG, hp.formatSWF,
    hp.formatMpegTs, hp.received, hp.prevPktTimes, hp.requests, hp.lastSeekTs, hp.swfStreams,
    hp.swfAhead⟩, List.forall_mem_nil _⟩

theorem staysReady_restartAll {p : OpenParser} (hp : Ready F format ahead p) :
    StaysReady F format ahead (restartAll 0) p 0 := by
  unfold restartAll StaysReady
  rw [Recorded.get_bind_apply]
  split
  · exact ⟨_, [], rfl, ⟨hp.tableSize, hp.streamCount, hp.streams, hp.noStream, hp.formatIMG,
      hp.formatSWF, hp.formatMpegTs, hp.received, rfl, hp.requests, hp.lastSeekTs, hp.swfStreams,
      hp.swfAhead⟩, List.forall_mem_nil _⟩
  · exact ⟨p, [], rfl, hp, List.forall_mem_nil _⟩

theorem staysReady_restartStream {p : OpenParser} (hp : Ready F format ahead p) :
    StaysReady F format ahead (restartStream 0 0) p 0 := by
  unfold restartStream StaysReady
  rw [Recorded.get_bind_apply, if_neg (by simp [hp.prevPktTimes])]
  exact ⟨p, [], rfl, hp, List.forall_mem_nil _⟩

theorem staysReady_checkSeek {p : OpenParser} (hp : Ready F format ahead p)
    (hsome : F.probedStreams ≠ 0) : StaysReady F format ahead (checkSeek 0 0) p () := by
  have hcount : ¬(0 : Int) ≥ p.tables.streamCount := by
    rw [hp.streamCount]
    omega
  unfold checkSeek StaysReady
  rw [Recorded.get_bind_apply, if_neg (by decide), if_neg hcount, if_neg (by simp)]
  exact ⟨p, [], rfl, hp, List.forall_mem_nil _⟩

theorem staysReady_seekImage {p : OpenParser} (hp : Ready F format ahead p) :
    StaysReady F format ahead (seekImage F 0 0) p () := by
  unfold seekImage StaysReady
  rw [Recorded.get_bind_apply, if_neg (by simp [hp.formatIMG])]
  exact ⟨p, [], rfl, hp, List.forall_mem_nil _⟩

theorem staysReady_checkMpegTs {p : OpenParser} (hp : Ready F format ahead p)
    (hts : format.formatMpegTs = false) : StaysReady F format ahead (checkMpegTs F 0) p () := by
  unfold checkMpegTs StaysReady
  rw [Recorded.get_bind_apply, if_neg (by simp [hp.formatMpegTs, hts])]
  exact ⟨p, [], rfl, hp, List.forall_mem_nil _⟩

/-- A parser that is ready has tables for its streams. -/
theorem Ready.fits {p : OpenParser} (hp : Ready F format ahead p) : Fits p where
  count := by
    rw [hp.streamCount]
    exact Int.natCast_nonneg _
  streams := by
    rw [hp.streamCount]
    exact Int.ofNat_le.mpr hp.streams
  tables := Int.le_of_eq (by rw [hp.streamCount, hp.tableSize])

theorem staysReady_fillAllGenPts {p : OpenParser} (hp : Ready F format ahead p)
    (time : TimestampFF) : StaysReady F format ahead (fillAllGenPts time) p () := by
  refine ⟨{ p with tables := p.tables.fillGenPts time }, _, rfl, ?_,
    ((bounded_fillAllGenPts time hp.fits.streams hp.fits.tables).only (Sized.refl p))⟩
  exact ⟨hp.tableSize, hp.streamCount, hp.streams, hp.noStream, hp.formatIMG, hp.formatSWF,
    hp.formatMpegTs, hp.received, hp.prevPktTimes, hp.requests, hp.lastSeekTs, hp.swfStreams,
    hp.swfAhead⟩

/-- Reading goes on where the parser is. -/
theorem Ready.outcome {p : OpenParser} (hp : Ready F format ahead p)
    (hswf : format.formatSWF = true) (hcompressed : F.compressedSwf.isSome = true) :
    Outcome F (some (F.probedStreams, ahead)) (.ok (), p) := by
  refine ⟨rfl, ⟨hp.fits, hp.formatIMG, fun _ => hcompressed⟩, hp.tableSize, ?_, hp.received,
    hp.swfAhead hswf⟩
  change p.nbStreams = 0 ↔ _
  rw [hp.swfStreams hswf]

/-- Opening the file again gives the streams and the packets of the new container. -/
theorem outcome_reopen {p : OpenParser} (hp : Ready F format ahead p)
    (hswf : format.formatSWF = true) (hreadable : F.compressedSwf.isSome = true) :
    Outcome F (F.reopened 0) ((reopen F >>= fun _ => pure ()) p).1 := by
  unfold reopen
  rw [Recorded.bind_assoc, Recorded.get_bind_apply, hp.requests]
  cases F.reopened 0 with
  | none => exact ⟨_, rfl⟩
  | some opened =>
    obtain ⟨n, ahead⟩ := opened
    rw [Recorded.bind_assoc, accessAll_bind_apply]
    refine ⟨rfl, ⟨⟨?_, ?_, ?_⟩, hp.formatIMG, fun _ => hreadable⟩, hp.tableSize, Iff.rfl,
      hp.received, rfl⟩
    · change 0 ≤ min (n : Int) p.nbStreams
      omega
    · exact Int.min_le_left _ _
    · change min (n : Int) p.nbStreams ≤ p.tableSize
      have hstreams := hp.swfStreams hswf
      have hsize := hp.tableSize
      omega

/-- The seek of a compressed SWF from the lookup of the direction on. -/
theorem ends_seekStream {p : OpenParser} (hp : Ready F format ahead p)
    (hsome : F.probedStreams ≠ 0) (hswf : format.formatSWF = true)
    (hcompressed : F.compressedSwf = some true) (hcover : ¬F.attachedPic 0 = true)
    (binary : Bool) : Ends (Outcome F (startRead F format ahead)) (seekStream F 0 0 binary) p := by
  refine ⟨?_, only_seekStream 0 binary (Int.le_refl 0) ?_ ?_ (Sized.refl p)⟩
  · unfold seekStream
    rw [accessAll_bind_apply, Recorded.get_bind_apply, hp.lastSeekTs]
    by_cases hheader : F.headerStreams = 1
    · rw [if_pos hheader, show startRead F format ahead = F.reopened 0 by
        simp [startRead, hswf, hcompressed, hsome, hcover, hheader]]
      simp only [ne_eq, not_true_eq_false, decide_false, Bool.false_and, seekSwf]
      rw [Recorded.bind_assoc, Recorded.get_bind_apply,
        if_neg (by simp [hp.formatSWF, hswf]), if_neg (by simp), Recorded.bind_assoc,
        Recorded.bind_ok (isCompressedSwf_apply fun _ => by rw [hcompressed]; rfl),
        if_pos (by simp [hp.formatSWF, hswf, hcompressed]), Recorded.bind_assoc]
      exact outcome_reopen hp hswf (by rw [hcompressed]; rfl)
    · rw [if_neg hheader, show startRead F format ahead = some (F.probedStreams, ahead) by
        simp [startRead, hswf, hcompressed, hsome, hheader]]
      exact hp.outcome hswf (by rw [hcompressed]; rfl)
  · have hstreams := hp.streams
    omega
  · rw [hp.tableSize]
    omega

/-- The seek that starts a compressed SWF. -/
theorem ends_seek {p : OpenParser} (hp : Ready F format ahead p) (hone : OneFormat F format)
    (hswf : format.formatSWF = true) (hcompressed : F.compressedSwf = some true) :
    Ends (Outcome F (startRead F format ahead)) (seek F 0 0) p := by
  have hreadable : F.compressedSwf.isSome = true := by rw [hcompressed]; rfl
  have hts : format.formatMpegTs = false := by
    by_contra h
    rw [hone.mpegTs (by simpa using h)] at hswf
    cases hswf
  by_cases hsome : F.probedStreams = 0
  · rw [show startRead F format ahead = none by simp [startRead, hswf, hcompressed, hsome]]
    unfold seek
    refine (staysReady_isCover hp).ends_bind fun p hp => ?_
    rw [if_neg (by simp [hsome])]
    refine (staysReady_clearChapters hp).ends_bind fun p hp => ?_
    refine (staysReady_restartAll hp).ends_bind fun p hp => ?_
    refine (staysReady_restartStream hp).ends_bind fun p hp => ?_
    have hcheck : checkSeek 0 0 p =
        ((.error (.thrown "Seek error: invalid seek stream index"), p), []) := by
      unfold checkSeek
      rw [Recorded.get_bind_apply, if_neg (by decide),
        if_pos (by simp [hp.streamCount, hsome]), Recorded.throw_apply]
    exact ends_bind_error hcheck
  · by_cases hcover : F.attachedPic 0 = true
    · rw [show startRead F format ahead = some (F.probedStreams, ahead) by
        simp [startRead, hswf, hcompressed, hsome, hcover]]
      unfold seek
      refine (staysReady_isCover hp).ends_bind fun p hp => ?_
      rw [if_pos (by simp [hsome, hcover])]
      exact ⟨hp.outcome hswf hreadable, Recorded.only_pure _ _⟩
    · unfold seek
      refine (staysReady_isCover hp).ends_bind fun p hp => ?_
      rw [if_neg (by simp [hcover])]
      refine (staysReady_clearChapters hp).ends_bind fun p hp => ?_
      refine (staysReady_restartAll hp).ends_bind fun p hp => ?_
      refine (staysReady_restartStream hp).ends_bind fun p hp => ?_
      refine (staysReady_checkSeek hp hsome).ends_bind fun p hp => ?_
      refine (staysReady_seekImage hp).ends_bind fun p hp => ?_
      refine (staysReady_checkMpegTs hp hts).ends_bind fun p hp => ?_
      have hstream (binary : Bool) : Ends (Outcome F (startRead F format ahead))
          (fillAllGenPts 0 >>= fun _ => seekStream F 0 0 binary) p :=
        (staysReady_fillAllGenPts hp 0).ends_bind fun p' hp' =>
          ends_seekStream hp' hsome hswf hcompressed hcover binary
      exact hstream _

/-- A repositioning request of a parser that is ready. -/
theorem ends_request (request : Reposition)
    (hreadable : format.formatSWF = true → F.compressedSwf.isSome = true) {p : OpenParser}
    (hp : Ready F format ahead p) :
    Ends (Outcome F (some (F.probedStreams, (F.request 0 request).2)))
      (reposition F request >>= fun _ => pure ()) p := by
  rw [Ends, Recorded.Only, Recorded.bind_ok (reposition_apply F request p), hp.requests]
  refine ⟨⟨rfl, ⟨⟨hp.fits.count, hp.fits.streams, hp.fits.tables⟩, hp.formatIMG,
    fun h => hreadable (hp.formatSWF.symm.trans h)⟩, hp.tableSize, ?_, hp.received, rfl⟩,
    fun e he => ?_⟩
  · change p.nbStreams = 0 ↔ _
    have hstreams := hp.streams
    have hnoStream := hp.noStream
    omega
  · obtain rfl := List.mem_singleton.mp he
    trivial

/-- Seeking to the start of the container before its first packets are read. -/
theorem ends_seekToZero {p : OpenParser} (hp : Ready F format ahead p)
    (hone : OneFormat F format) :
    Ends (Outcome F (startRead F format ahead)) (seekToZero F) p := by
  have hcompressedRuns (hreadable : format.formatSWF = true → F.compressedSwf.isSome = true) :
      StaysReady F format ahead (isCompressedSwf F) p
        (p.tables.formatSWF && F.compressedSwf.getD false) :=
    ⟨p, [], isCompressedSwf_apply fun h => hreadable (hp.formatSWF.symm.trans h), hp,
      List.forall_mem_nil _⟩
  unfold seekToZero
  refine ends_get_bind ?_
  by_cases hswf : format.formatSWF = true
  · cases hcompressed : F.compressedSwf with
    | none =>
      rw [show startRead F format ahead = none by simp [startRead, hswf, hcompressed]]
      have hthrow : isCompressedSwf F p = ((.error (.thrown
          "Can't open file: file is absent or you haven't access rights"), p), []) := by
        unfold isCompressedSwf
        rw [Recorded.get_bind_apply, if_neg (by simp [hp.formatSWF, hswf]), hcompressed]
        rfl
      exact ends_bind_error hthrow
    | some compressed =>
      have hreadable : format.formatSWF = true → F.compressedSwf.isSome = true :=
        fun _ => by rw [hcompressed]; rfl
      refine (hcompressedRuns hreadable).ends_bind fun p' hp' => ?_
      rw [hcompressed, hp.formatSWF, hswf]
      cases compressed with
      | true =>
        rw [if_pos (by decide)]
        exact ends_seek hp' hone hswf hcompressed
      | false =>
        rw [if_neg (by decide), if_pos (by simp), show startRead F format ahead =
          some (F.probedStreams, (F.request 0 (.frame (-1) 0)).2) by
            simp [startRead, hswf, hcompressed]]
        exact ends_request _ hreadable hp'
  · have hreadable : format.formatSWF = true → F.compressedSwf.isSome = true :=
      fun h => absurd h hswf
    refine (hcompressedRuns hreadable).ends_bind fun p' hp' => ?_
    rw [Bool.not_eq_true] at hswf
    rw [hp.formatSWF, hswf, if_neg (by simp), if_neg (by simp [hp.formatIMG]),
      show startRead F format ahead =
        some (F.probedStreams, (F.request 0 (.file (-1) 0 0 0 false)).2) by
          simp [startRead, hswf]]
    exact ends_request _ hreadable hp'

/-- The packets read first belong to streams found by probing, and if the container has no stream
one has appeared with them. -/
def SafeRead (F : FFmpegInput) (start : Option (Nat × List AVPacket)) : Prop :=
  ∀ streams ahead, start = some (streams, ahead) →
    (∀ packet ∈ firstPacketsRead F.probedStreams 50 (fun _ => false) ahead,
      InStreams F.probedStreams packet) ∧
    (streams ≠ 0 ∨ firstPacketsRead F.probedStreams 50 (fun _ => false) ahead ≠ [])

theorem only_getFirstPackets_iff (hlawful : F.Lawful) (hone : OneFormat F format)
    {f : List AVPacket → Opening Bool} (hf : NeedsStream F f) {p : OpenParser}
    (hp : Ready F format ahead p) :
    Recorded.Only InRange (getFirstPackets F >>= f) p ↔
      SafeRead F (startRead F format ahead) := by
  obtain ⟨houtcome, honly⟩ := ends_seekToZero hp hone
  unfold getFirstPackets
  rw [Recorded.bind_assoc]
  rcases hrun : seekToZero F p with ⟨⟨result, p'⟩, events⟩
  have hall : ∀ e ∈ events, InRange e := fun e he => honly e (by rw [hrun]; exact he)
  rw [hrun] at houtcome
  cases hstart : startRead F format ahead with
  | none =>
    rw [hstart] at houtcome
    obtain ⟨e, rfl⟩ := houtcome
    refine iff_of_true (Recorded.only_bind_error hrun hall) fun streams ahead h => ?_
    cases h
  | some start =>
    obtain ⟨streams, ahead'⟩ := start
    rw [hstart] at houtcome
    obtain ⟨rfl, hprobing, hsize, hstreams, hreceived, hahead⟩ := houtcome
    rw [Recorded.only_bind_iff hrun hall,
      only_firstPacketsLoop_iff hlawful hf 50 [] p' hprobing (List.forall_mem_nil _)]
    dsimp only at hsize hstreams hreceived hahead
    rw [hsize, hreceived, hahead, ne_eq, hstreams]
    constructor
    · rintro hsafe streams' ahead' h
      obtain ⟨rfl, rfl⟩ := Prod.mk.inj (Option.some.inj h)
      exact hsafe
    · exact fun hsafe => hsafe streams ahead' rfl

/-! ## The whole opening -/

/-- The chapters of a VOB are looked for. -/
def hasVobChapters (F : FFmpegInput) (format : FileFormat) : Bool :=
  format.formatVRO || format.formatVOB || (F.longNameMpegPs && F.hasDvdNav)

/-- Opening ends before the container is sought to its start. -/
def stopsBeforeRead (F : FFmpegInput) (format : FileFormat) : Bool :=
  F.hasDrm || (F.nameMxf && (streamIndices F.headerStreams).any F.isJpeg2000) || !F.infoFound ||
    (F.nameApng && hasVobChapters F format && F.probedStreams ≠ 0 && !F.vobChapters.isOk)

/-- Opening ends before a packet is read, or the packets read first are safe. -/
def SafeOpening (F : FFmpegInput) (format : FileFormat) (ahead : List AVPacket) : Prop :=
  stopsBeforeRead F format = true ∨ SafeRead F (startRead F format ahead)

/-- The look for JPEG 2000, with its accesses. -/
theorem findJpeg2000_apply {indices : List Int} {p : OpenParser}
    (hindices : ∀ i ∈ indices, 0 ≤ i ∧ i < p.nbStreams) :
    ∃ events, findJpeg2000 F indices p = ((.ok (indices.any F.isJpeg2000), p), events) ∧
      ∀ e ∈ events, InRange e := by
  induction indices with
  | nil => exact ⟨[], rfl, List.forall_mem_nil _⟩
  | cons i rest ih =>
    obtain ⟨events, hrest, hall⟩ := ih fun j hj => hindices j (List.mem_cons_of_mem _ hj)
    unfold findJpeg2000
    rw [access_bind_apply]
    by_cases hi : F.isJpeg2000 i = true
    · rw [if_pos hi, List.any_cons, hi]
      refine ⟨_, rfl, fun e he => ?_⟩
      obtain rfl := List.mem_singleton.mp he
      exact hindices i List.mem_cons_self
    · rw [if_neg hi, List.any_cons, Bool.eq_false_iff.mpr hi, hrest]
      refine ⟨_, rfl, fun e he => ?_⟩
      rcases List.mem_cons.mp he with rfl | he
      · exact hindices i List.mem_cons_self
      · exact hall e he

/-- The chapters of an APNG are looked for before its first packets are read. -/
theorem staysReady_detectChapters {p : OpenParser} (hp : Ready F format ahead p)
    (hswf : format.formatSWF = false)
    (hchapters : (p.tables.formatVRO || p.tables.formatVOB) = hasVobChapters F format)
    (hok : hasVobChapters F format = true → F.probedStreams ≠ 0 → F.vobChapters.isOk = true) :
    StaysReady F format ahead (detectChapters F) p () := by
  unfold detectChapters detectVobChapters StaysReady
  rw [Recorded.get_bind_apply, hchapters]
  split
  · rename_i hhas
    rw [Recorded.get_bind_apply]
    split
    · exact ⟨_, [], rfl, ⟨hp.tableSize, hp.streamCount, hp.streams, hp.noStream, hp.formatIMG,
        hp.formatSWF, hp.formatMpegTs, hp.received, hp.prevPktTimes, hp.requests, hp.lastSeekTs,
        hp.swfStreams, hp.swfAhead⟩, List.forall_mem_nil _⟩
    · rename_i hsome
      rw [hp.streamCount] at hsome
      have hok := hok hhas (by omega)
      cases hfound : F.vobChapters with
      | error e =>
        rw [hfound] at hok
        cases hok
      | ok found =>
        refine ⟨_, [], rfl, ⟨hp.tableSize, hp.streamCount, ?_, ?_, hp.formatIMG, hp.formatSWF,
          hp.formatMpegTs, hp.received, hp.prevPktTimes, hp.requests, hp.lastSeekTs, ?_, ?_⟩,
        List.forall_mem_nil _⟩
        · exact Nat.le_trans hp.streams (Nat.le_add_right _ _)
        · exact fun hnone => absurd (Int.le_of_eq (congrArg Int.ofNat hnone)) hsome
        · exact fun h => absurd (h.symm.trans hswf) (by decide)
        · exact fun h => absurd (h.symm.trans hswf) (by decide)
  · exact ⟨p, [], rfl, hp, List.forall_mem_nil _⟩

/-- The detection of chapters throws where the file has none that can be read. -/
theorem detectChapters_error {p : OpenParser} (hp : Ready F format ahead p)
    (hchapters : (p.tables.formatVRO || p.tables.formatVOB) = hasVobChapters F format)
    (hstop : (hasVobChapters F format && F.probedStreams ≠ 0 && !F.vobChapters.isOk) = true) :
    ∃ e, detectChapters F p = ((.error e, p), []) := by
  simp only [Bool.and_eq_true, decide_eq_true_eq] at hstop
  obtain ⟨⟨hhas, hsome⟩, herror⟩ := hstop
  unfold detectChapters detectVobChapters
  rw [Recorded.get_bind_apply, if_pos (hchapters.trans hhas), Recorded.get_bind_apply,
    if_neg (by rw [hp.streamCount]; omega)]
  cases hfound : F.vobChapters with
  | error e => exact ⟨e, rfl⟩
  | ok found =>
    rw [hfound] at herror
    cases herror

/-- The parser when `avformat_find_stream_info` has succeeded. -/
def headerParser (F : FFmpegInput) (format : FileFormat) (ahead : List AVPacket)
    (streams : Int → AVStream) (containerStartTime : TimestampFF) : OpenParser :=
  (rememberHeaderStreams F (created F format ahead streams containerStartTime)).1.2

/-- The array of streams is read at the index of every stream. -/
theorem only_accessStreams {n : Nat} {p : OpenParser} (hn : n ≤ p.nbStreams) :
    Recorded.Only InRange (accessAll [.streams] (streamIndices n)) p := by
  refine (bounded_accessAll fun p' hp' i hi => ?_).only (Sized.refl p)
  obtain ⟨hnonneg, hlt⟩ := mem_streamIndices hi
  refine ⟨hnonneg, fun t ht => ?_⟩
  obtain rfl := List.mem_singleton.mp ht
  change i < p'.nbStreams
  rw [hp'.nbStreams]
  omega

theorem only_rememberHeaderStreams (streams : Int → AVStream) (containerStartTime : TimestampFF) :
    Recorded.Only InRange (rememberHeaderStreams F)
      (created F format ahead streams containerStartTime) :=
  Recorded.Only.bind (only_accessStreams (Nat.le_refl _)) fun _ _ => nofun

/-- The parser once its tables are sized for the streams found by probing. -/
def sized (F : FFmpegInput) (p : OpenParser) : OpenParser := (sizeTables F p).1.2

theorem only_sizeTables (p : OpenParser) : Recorded.Only InRange (sizeTables F) p := by
  unfold sizeTables
  rw [Recorded.only_modify_bind_iff]
  exact only_accessStreams (Nat.le_refl _)

/-- After the tables were sized the parser is ready. -/
theorem ready_sized (streams : Int → AVStream) (containerStartTime : TimestampFF) :
    Ready F format ahead (sized F (headerParser F format ahead streams containerStartTime)) := by
  refine ⟨rfl, rfl, Nat.le_refl _, id, rfl, rfl, rfl, rfl, rfl, rfl, ?_, fun _ => rfl, fun _ => rfl⟩
  change (if F.headerStreams = 0 then fun _ : Int => none
    else Function.update (fun _ => none) ((F.headerStreams - 1 : Nat) : Int) (some avNoPtsValue)) 0 =
      _
  by_cases hone : F.headerStreams = 1
  · rw [if_neg (by omega), if_pos hone, hone]
    rfl
  · rw [if_neg hone]
    split
    · rfl
    · rw [Function.update_of_ne (by omega)]

/-- The parser is ready once a DVD_NAV stream was looked for. -/
theorem staysReady_detectDvdNav {p : OpenParser} (hp : Ready F format ahead p)
    (hvro : p.tables.formatVRO = format.formatVRO) (hvob : p.tables.formatVOB = format.formatVOB) :
    ∃ p' events, detectDvdNav F p = ((.ok (), p'), events) ∧ Ready F format ahead p' ∧
      (p'.tables.formatVRO || p'.tables.formatVOB) = hasVobChapters F format ∧
      ∀ e ∈ events, InRange e := by
  have hclean (f : ParserFF → ParserFF) : Recorded.Only InRange
      (accessAll [.streams] (streamIndices F.probedStreams) >>= fun _ => modifyTables f) p :=
    (only_accessStreams hp.streams).bind fun _ _ => nofun
  unfold detectDvdNav hasVobChapters
  split
  · rename_i hps
    refine ⟨_, _, rfl, ?_, ?_, hclean _⟩
    · exact ⟨hp.tableSize, hp.streamCount, hp.streams, hp.noStream, hp.formatIMG, hp.formatSWF,
        hp.formatMpegTs, hp.received, hp.prevPktTimes, hp.requests, hp.lastSeekTs, hp.swfStreams,
        hp.swfAhead⟩
    · change (p.tables.formatVRO || (p.tables.formatVOB || F.hasDvdNav)) = _
      rw [hvro, hvob, hps, Bool.true_and, Bool.or_assoc]
  · rename_i hps
    refine ⟨p, [], rfl, hp, ?_, List.forall_mem_nil _⟩
    rw [hvro, hvob, Bool.eq_false_iff.mpr hps, Bool.false_and, Bool.or_false]

theorem only_useStreams_iff (hlawful : F.Lawful) (hone : OneFormat F format)
    (streams : Int → AVStream) (containerStartTime : TimestampFF) :
    Recorded.Only InRange (useStreams F)
        (headerParser F format ahead streams containerStartTime) ↔
      (F.nameApng && hasVobChapters F format && F.probedStreams ≠ 0 && !F.vobChapters.isOk) = true ∨
        SafeRead F (startRead F format ahead) := by
  have hsize : sizeTables F (headerParser F format ahead streams containerStartTime) =
      ((.ok (), sized F (headerParser F format ahead streams containerStartTime)), _) := rfl
  have hsized : Ready F format ahead
      (sized F (headerParser F format ahead streams containerStartTime)) :=
    ready_sized streams containerStartTime
  obtain ⟨p, events, hdvd, hready, hchapters, hall⟩ := staysReady_detectDvdNav hsized rfl rfl
  unfold useStreams
  rw [Recorded.only_bind_iff hsize (only_sizeTables _), Recorded.only_bind_iff hdvd hall]
  change Recorded.Only InRange (detectShiftsAndChapters F >>= fun _ => settle F) p ↔ _
  unfold detectShiftsAndChapters
  by_cases hapng : F.nameApng = true
  · rw [if_pos hapng, hapng, Bool.true_and, Recorded.bind_assoc]
    simp only [Recorded.bind_assoc]
    by_cases hstop : (hasVobChapters F format && F.probedStreams ≠ 0 && !F.vobChapters.isOk) = true
    · obtain ⟨e, hthrow⟩ := detectChapters_error hready hchapters hstop
      exact iff_of_true (Recorded.only_bind_error hthrow (List.forall_mem_nil _)) (.inl hstop)
    · obtain ⟨p', events, hrun, hready', hall⟩ := staysReady_detectChapters hready
        (hone.apng hapng) hchapters fun hhas hsome => by
          by_contra h
          exact hstop (by simp [hhas, hsome, h])
      rw [Recorded.only_bind_iff hrun hall,
        only_getFirstPackets_iff hlawful hone (needsStream_apng hlawful) hready', or_iff_right hstop]
  · rw [if_neg hapng, Bool.eq_false_iff.mpr hapng]
    rw [Recorded.bind_assoc]
    simp only [Recorded.bind_assoc]
    rw [only_getFirstPackets_iff hlawful hone (needsStream_chapters hlawful) hready]
    simp

/-- The accesses made while a file is opened are in range exactly when opening ends before a packet
is read, or the packets read first belong to streams that probing found and there is a stream to
seek by. -/
theorem inRange_iff_safeOpening (hlawful : F.Lawful) (hone : OneFormat F format)
    (streams : Int → AVStream) (containerStartTime : TimestampFF) :
    (∀ e ∈ (findStreamInfo F (created F format ahead streams containerStartTime)).2, InRange e) ↔
      SafeOpening F format ahead := by
  have hheader : rememberHeaderStreams F (created F format ahead streams containerStartTime) =
      ((.ok (), headerParser F format ahead streams containerStartTime), _) := rfl
  change Recorded.Only InRange (findStreamInfo F) _ ↔ _
  unfold findStreamInfo SafeOpening stopsBeforeRead
  rw [Recorded.only_bind_iff hheader (only_rememberHeaderStreams _ _)]
  by_cases hdrm : F.hasDrm = true
  · rw [if_pos hdrm, hdrm]
    exact iff_of_true (Recorded.only_throw _ _) (.inl rfl)
  · have hindices : ∀ i ∈ (if F.nameMxf then streamIndices F.headerStreams else []),
        0 ≤ i ∧ i < (headerParser F format ahead streams containerStartTime).nbStreams := by
      intro i hi
      split at hi
      · exact mem_streamIndices hi
      · cases hi
    have hany : (if F.nameMxf then streamIndices F.headerStreams else []).any F.isJpeg2000 =
        (F.nameMxf && (streamIndices F.headerStreams).any F.isJpeg2000) := by
      cases F.nameMxf <;> rfl
    obtain ⟨events, hjpeg, hall⟩ := findJpeg2000_apply hindices
    rw [if_neg hdrm, Bool.eq_false_iff.mpr hdrm, Bool.false_or, Recorded.only_bind_iff hjpeg hall,
      hany]
    by_cases hrefused : (F.nameMxf && (streamIndices F.headerStreams).any F.isJpeg2000 ||
        !F.infoFound) = true
    · rw [if_pos hrefused, hrefused, Bool.true_or]
      exact iff_of_true (Recorded.only_pure _ _) (.inl rfl)
    · rw [if_neg hrefused, Bool.eq_false_iff.mpr hrefused, Bool.false_or]
      exact only_useStreams_iff hlawful hone streams containerStartTime

open ParserSession in

/-- The file of the examples behaves as FFmpeg does. -/
theorem lawful_audioInput (streams : Nat) (request : Nat → Reposition → Bool × List AVPacket) :
    { audioInput streams with request := request }.Lawful where
  findBestStream type n := by
    change (if type = .audio ∧ n ≠ 0 then (0 : Int) else -1) < n
    split
    · omega
    · omega
  streamsAfter packet n := Nat.le_max_left _ _
  packetStream packet n := by
    change packet.streamIndex < (max n (packet.streamIndex.toNat + 1) : Nat)
    omega

theorem oneFormat_plainFormat (F : FFmpegInput) : OneFormat F ParserSession.plainFormat :=
  ⟨fun _ => rfl, nofun⟩

/-- A container with one audio stream, from which no packet is read. -/
theorem inRange_iff_safeOpening_single :
    (∀ e ∈ (findStreamInfo (ParserSession.audioInput 1) (ParserSession.audioParser 1)).2,
      InRange e) ↔ SafeOpening (ParserSession.audioInput 1) ParserSession.plainFormat [] :=
  inRange_iff_safeOpening (lawful_audioInput 1 _) (oneFormat_plainFormat _) _ _

/-- A packet of the given stream. -/
def packetOf (streamIndex : Int) : AVPacket where
  streamIndex := streamIndex
  pts := avNoPtsValue
  dts := avNoPtsValue
  duration := 10
  pos := 0
  flags := 0

/-- A container with one audio stream, in which a second stream appears at the start. -/
def lateInput : FFmpegInput :=
  { ParserSession.audioInput 1 with request := fun _ _ => (true, [packetOf 1]) }

/-- The parser of such a container, before it is probed. -/
def plainParser (F : FFmpegInput) : OpenParser :=
  created F ParserSession.plainFormat [] (fun _ => ParserSession.audioStream) avNoPtsValue

/-- Without streams the tables are read at `-1`, and a packet of a new stream is looked up behind
their end. -/
theorem index_out_of_range :
    ((ParserSession.audioInput 0).Lawful ∧
      ∃ e ∈ (findStreamInfo (ParserSession.audioInput 0)
        (plainParser (ParserSession.audioInput 0))).2, ¬InRange e) ∧
    (lateInput.Lawful ∧ ∃ e ∈ (findStreamInfo lateInput (plainParser lateInput)).2, ¬InRange e) := by
  refine ⟨⟨lawful_audioInput 0 _, .access .genPts (-1) 0, by decide, ?_⟩,
    lawful_audioInput 1 _, .access .firstStreamPktReceived 1 1, by decide, ?_⟩
  · intro h
    exact absurd h.1 (by decide)
  · intro h
    exact absurd h.2 (by decide)

end Seekira.Model.OpenParser

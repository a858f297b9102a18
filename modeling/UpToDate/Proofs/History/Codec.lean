import UpToDate.History.Codec
import UpToDate.Proofs.Dict

namespace UpToDate.Codec

variable {α β : Type}

/-- The reader takes exactly these bytes off any input and makes this value of them, with any
memory. -/
def Reads (read : Reader α) (b : Bytes) (a : α) : Prop :=
  ∀ memory rest, read memory (b ++ rest) = .ok (a, rest)

def wordLimit : Nat := 0x10000000000000000

/-- The reader gives back what is written of every value that has a property. -/
def Inverts (read : Reader α) (write : α → Bytes) (sized : α → Prop) : Prop :=
  ∀ a, sized a → Reads read (write a) a

theorem bind_of_ok {read : Reader α} {memory : Nat} {s t : Bytes} {a : α} (k : α → Reader β)
    (h : read memory s = .ok (a, t)) : (read >>= k) memory s = k a memory t := by
  change (read memory s >>= fun p ↦ k p.1 memory p.2) = _
  rw [h]
  rfl

theorem bind_of_error {read : Reader α} {memory : Nat} {s : Bytes} {e : Stop} (k : α → Reader β)
    (h : read memory s = .error e) : (read >>= k) memory s = .error e := by
  change (read memory s >>= fun p ↦ k p.1 memory p.2) = _
  rw [h]
  rfl

theorem Reads.pure (a : α) : Reads (pure a) [] a := fun _ _ ↦ rfl

theorem Reads.bind {read : Reader α} {k : α → Reader β} {b c : Bytes} {a : α} {x : β}
    (h : Reads read b a) (h' : Reads (k a) c x) : Reads (read >>= k) (b ++ c) x := by
  intro memory rest
  rw [List.append_assoc, bind_of_ok k (h memory _)]
  exact h' memory rest

theorem Reads.map {read : Reader α} {b : Bytes} {a : α} (h : Reads read b a) (f : α → β) :
    Reads (do return f (← read)) b (f a) := by
  have hb := h.bind (k := fun a ↦ Pure.pure (f a)) (.pure (f a))
  rwa [List.append_nil] at hb

section Numbers

theorem reads_bytes (b : Bytes) : Reads (readBytes b.length) b b := by
  intro memory rest
  simp [readBytes]

theorem writeNat_one {n : Nat} (h : n ≤ 250) : writeNat n = [UInt8.ofNat n] := by
  rw [writeNat, if_pos h]

theorem writeNat_two {n : Nat} (h : 250 < n) (h₂ : n < 0x10000) :
    writeNat n = 251 :: Bytes.ofNat 2 n := by
  rw [writeNat, if_neg (by omega), if_pos h₂]

theorem writeNat_four {n : Nat} (h : 0x10000 ≤ n) (h₄ : n < 0x100000000) :
    writeNat n = 252 :: Bytes.ofNat 4 n := by
  rw [writeNat, if_neg (by omega), if_neg (by omega), if_pos h₄]

theorem writeNat_eight {n : Nat} (h : 0x100000000 ≤ n) : writeNat n = 253 :: Bytes.ofNat 8 n := by
  rw [writeNat, if_neg (by omega), if_neg (by omega), if_neg (by omega)]

/-- Bytes that say a number: a byte up to 250, or a marker and then the number in two, four or
eight bytes, least significant first. -/
inductive Says : Nat → Bytes → Prop
  | one (b : UInt8) : b.toNat ≤ 250 → Says b.toNat [b]
  | two (b : Bytes) : b.length = 2 → Says (Bytes.toNat b) (251 :: b)
  | four (b : Bytes) : b.length = 4 → Says (Bytes.toNat b) (252 :: b)
  | eight (b : Bytes) : b.length = 8 → Says (Bytes.toNat b) (253 :: b)

theorem says_writeNat {n : Nat} (h : n < wordLimit) : Says n (writeNat n) := by
  by_cases h₁ : n ≤ 250
  · have hb : (UInt8.ofNat n).toNat = n := by
      rw [UInt8.toNat_ofNat']
      omega
    have hform := Says.one (UInt8.ofNat n) (by omega)
    rwa [hb, ← writeNat_one h₁] at hform
  · by_cases h₂ : n < 0x10000
    · have hform := Says.two (Bytes.ofNat 2 n) (Bytes.length_ofNat 2 n)
      rwa [Bytes.toNat_ofNat (w := 2) h₂, ← writeNat_two (by omega) h₂] at hform
    · by_cases h₄ : n < 0x100000000
      · have hform := Says.four (Bytes.ofNat 4 n) (Bytes.length_ofNat 4 n)
        rwa [Bytes.toNat_ofNat (w := 4) h₄, ← writeNat_four (by omega) h₄] at hform
      · have hform := Says.eight (Bytes.ofNat 8 n) (Bytes.length_ofNat 8 n)
        rwa [Bytes.toNat_ofNat (w := 8) h, ← writeNat_eight (by omega)] at hform

theorem Says.reads {width n : Nat} {b : Bytes} (h : Says n b) (hb : b.length ≤ width + 1) :
    Reads (readNat width) b n := by
  have hmark (m : UInt8) : Reads (readBytes 1) [m] [m] := reads_bytes [m]
  have hwide {w : Nat} {b : Bytes} (hw : b.length = w) :
      Reads (do return Bytes.toNat (← readBytes w)) b (Bytes.toNat b) :=
    hw ▸ (reads_bytes b).map Bytes.toNat
  cases h with
  | one m hm =>
    refine (hmark m).bind (c := []) ?_
    simp only [if_pos hm]
    exact .pure _
  | two b hw =>
    rw [List.length_cons, hw] at hb
    refine (hmark 251).bind (c := b) ?_
    simpa [show 2 ≤ width by omega] using hwide hw
  | four b hw =>
    rw [List.length_cons, hw] at hb
    refine (hmark 252).bind (c := b) ?_
    simpa [show 4 ≤ width by omega] using hwide hw
  | eight b hw =>
    rw [List.length_cons, hw] at hb
    refine (hmark 253).bind (c := b) ?_
    simpa [show 8 ≤ width by omega] using hwide hw

theorem Says.length_le {n : Nat} {b : Bytes} (h : Says n b) : b.length ≤ 8 + 1 := by
  cases h <;> simp_all

theorem length_writeNat_le {width n : Nat} (h₂ : 250 < n → 2 ≤ width)
    (h₄ : 0x10000 ≤ n → 4 ≤ width) (h₈ : 0x100000000 ≤ n → 8 ≤ width) :
    (writeNat n).length ≤ width + 1 := by
  unfold writeNat
  split
  · simp
  · split
    · simpa [Bytes.length_ofNat] using h₂ (by omega)
    · split
      · simpa [Bytes.length_ofNat] using h₄ (by omega)
      · simpa [Bytes.length_ofNat] using h₈ (by omega)

theorem reads_size {n : Nat} (h : n < wordLimit) : Reads (readNat 8) (writeNat n) n :=
  (says_writeNat h).reads (length_writeNat_le (by omega) (by omega) (by omega))

theorem reads_half {n : Nat} (h : n < 0x100000000) : Reads (readNat 4) (writeNat n) n := by
  have hword : n < wordLimit := Nat.lt_trans h (by decide)
  exact (says_writeNat hword).reads (length_writeNat_le (by omega) (by omega) (by omega))

theorem writeNat_ne_nil (n : Nat) : writeNat n ≠ [] := by
  unfold writeNat
  split
  · exact List.cons_ne_nil _ _
  · split
    · exact List.cons_ne_nil _ _
    · split <;> exact List.cons_ne_nil _ _

end Numbers

section Parts

theorem length_ofText (s : String) : (Bytes.ofText s).length = s.utf8ByteSize := rfl

def SizedText (s : String) : Prop := s.utf8ByteSize < wordLimit

structure SizedMap (sized : α → Prop) (d : Dict String α) : Prop where
  size : d.size < wordLimit
  entries : ∀ e ∈ d.entries, SizedText e.1 ∧ sized e.2

theorem reads_textOf (s : String) : Reads (readTextOf s.utf8ByteSize) (Bytes.ofText s) s := by
  intro memory rest
  have hclaim : claim s.utf8ByteSize memory (Bytes.ofText s ++ rest) =
      .ok ((), Bytes.ofText s ++ rest) := by
    rw [claim, if_pos (.inl (by rw [List.length_append, length_ofText]; omega))]
  have hbytes := reads_bytes (Bytes.ofText s) memory rest
  rw [length_ofText] at hbytes
  rw [readTextOf, bind_of_ok _ hclaim, bind_of_ok _ hbytes, Bytes.toText?_ofText]
  rfl

theorem inverts_text : Inverts readText writeText SizedText :=
  fun s h ↦ (reads_size h).bind (reads_textOf s)

theorem inverts_digest : Inverts readDigest writeDigest fun _ ↦ True := by
  intro d _ memory rest
  have hlen : (writeDigest d).length = 16 := d.length_bytes
  have hfront : (writeDigest d ++ rest).take 16 = d.bytes := by rw [← hlen, List.take_left]; rfl
  have hback : (writeDigest d ++ rest).drop 16 = rest := by rw [← hlen, List.drop_left]
  simp only [readDigest, hfront, hback, d.length_bytes, dif_pos]

variable {read : Reader α} {write : α → Bytes} {sized : α → Prop}

def writeEntries (write : α → Bytes) (l : List (String × α)) : Bytes :=
  l.flatMap fun e ↦ writeText e.1 ++ write e.2

theorem writeMap_eq (write : α → Bytes) (d : Dict String α) :
    writeMap write d = writeNat d.size ++ writeEntries write d.entries :=
  rfl

theorem reads_entries (h : Inverts read write sized) (l : List (String × α))
    (hl : ∀ e ∈ l, SizedText e.1 ∧ sized e.2) :
    Reads (readEntries read l.length) (writeEntries write l) l := by
  induction l with
  | nil => exact .pure []
  | cons e rest ih =>
    obtain ⟨⟨htext, hvalue⟩, hrest⟩ := List.forall_mem_cons.1 hl
    rw [writeEntries, List.flatMap_cons, List.append_assoc, ← writeEntries]
    refine (inverts_text e.1 htext).bind ((h e.2 hvalue).bind ?_)
    exact (ih hrest).map (e :: ·)

theorem Inverts.dict (h : Inverts read write sized) :
    Inverts (readMap read) (writeMap write) (SizedMap sized) := by
  intro d hd
  rw [writeMap_eq]
  refine (reads_size hd.size).bind ?_
  have he := (reads_entries h d.entries hd.entries).map Dict.ofList
  rwa [Dict.ofList_entries] at he

theorem inverts_fingerprints :
    Inverts readFingerprints writeFingerprints (SizedMap (SizedMap fun _ ↦ True)) :=
  inverts_digest.dict.dict

end Parts

section Sizes

variable {write : α → Bytes} {sized : α → Prop}

theorem sizedText_of_length {s : String} (h : (writeText s).length < wordLimit) : SizedText s := by
  rw [writeText, List.length_append, length_ofText] at h
  rw [SizedText]
  omega

theorem length_le_entries (write : α → Bytes) (l : List (String × α)) :
    l.length ≤ (writeEntries write l).length := by
  induction l with
  | nil => exact Nat.zero_le _
  | cons e rest ih =>
    have hpos := List.length_pos_iff.2 (writeNat_ne_nil e.1.utf8ByteSize)
    simp only [writeEntries, List.flatMap_cons, List.length_append, List.length_cons,
      writeText] at ih ⊢
    omega

theorem SizedMap.of_length (h : ∀ a, (write a).length < wordLimit → sized a) {d : Dict String α}
    (hd : (writeMap write d).length < wordLimit) : SizedMap sized d := by
  rw [writeMap_eq, List.length_append] at hd
  have hsize : d.size ≤ _ := length_le_entries write d.entries
  refine ⟨by omega, fun e he ↦ ?_⟩
  have hmem : writeText e.1 ++ write e.2 ∈ d.entries.map fun e ↦ writeText e.1 ++ write e.2 :=
    List.mem_map_of_mem he
  have hentry := (List.sublist_flatten_of_mem hmem).length_le
  rw [← List.flatMap_def, ← writeEntries, List.length_append] at hentry
  exact ⟨sizedText_of_length (by omega), h e.2 (by omega)⟩

end Sizes

section States

/-- A state whose texts and maps are no larger than a word can count. -/
structure SizedState (r : Recorded) : Prop where
  values : SizedMap (fun _ ↦ True) r.values
  inputs : SizedMap (SizedMap fun _ ↦ True) r.inputs
  outputs : SizedMap (SizedMap fun _ ↦ True) r.outputs
  invocation : SizedText r.origin.invocation
  producer : SizedText r.origin.producer

theorem SizedState.of_length {r : Recorded} (h : (writeState r).length < wordLimit) :
    SizedState r := by
  simp only [writeState, writeOrigin, List.length_append] at h
  have hfiles {f : Fingerprints} (hf : (writeFingerprints f).length < wordLimit) :
      SizedMap (SizedMap fun _ ↦ True) f :=
    .of_length (fun _ ha ↦ .of_length (fun _ _ ↦ trivial) ha) hf
  have hvalues : (writeMap writeDigest r.values).length < wordLimit := by omega
  refine ⟨.of_length (fun _ _ ↦ trivial) hvalues, hfiles (by omega), hfiles (by omega), ?_, ?_⟩
  · exact sizedText_of_length (by omega)
  · exact sizedText_of_length (by omega)

theorem reads_origin {o : Origin} (hi : SizedText o.invocation) (hp : SizedText o.producer) :
    Reads readOrigin (writeOrigin o) o := by
  have hword (n : UInt64) : Reads (readNat 8) (writeNat n.toNat) n.toNat :=
    reads_size n.toNat_lt
  have ho : Reads readOrigin (writeOrigin o) ⟨o.invocation, o.producer,
      UInt64.ofNat o.elapsedMs.toNat, UInt64.ofNat o.createdMs.toNat⟩ := by
    rw [writeOrigin, List.append_assoc, List.append_assoc]
    refine (inverts_text _ hi).bind ?_
    refine (inverts_text _ hp).bind ?_
    refine (hword _).bind ?_
    exact (hword _).map fun created ↦
      (⟨o.invocation, o.producer, UInt64.ofNat o.elapsedMs.toNat, UInt64.ofNat created⟩ : Origin)
  simpa only [UInt64.ofNat_toNat] using ho

theorem inverts_state : Inverts readState writeState SizedState := by
  intro r h
  rw [writeState, List.append_assoc, List.append_assoc]
  refine (inverts_digest.dict _ h.values).bind ?_
  refine (inverts_fingerprints _ h.inputs).bind ?_
  refine (inverts_fingerprints _ h.outputs).bind ?_
  exact (reads_origin h.invocation h.producer).map fun origin ↦
    (⟨r.values, r.inputs, r.outputs, origin⟩ : Recorded)

end States

section Records

structure SizedHeader (h : Header) : Prop where
  magic : h.magic.length = 4
  format : h.format < 0x100000000
  version : SizedText h.version

theorem inverts_header : Inverts readHeader writeHeader SizedHeader := by
  intro h hs
  rw [writeHeader, List.append_assoc, List.append_assoc]
  refine Reads.bind (a := h.magic) (hs.magic ▸ reads_bytes h.magic) ?_
  refine (reads_half hs.format).bind ?_
  refine (inverts_text _ hs.version).bind ?_
  exact (inverts_digest _ trivial).map fun checksum ↦
    (⟨h.magic, h.format, h.version, checksum⟩ : Header)

def headerOf (version : String) (r : Recorded) : Header :=
  ⟨recordMagic, recordFormat, version, .ofBytes (writeState r)⟩

/-- A record can be written: its parts are no longer than the numbers that count their bytes. -/
structure Fits (version : String) (r : Recorded) : Prop where
  header : (writeHeader (headerOf version r)).length < 0x100000000
  state : (writeState r).length < wordLimit

theorem sizedHeader_headerOf {version : String} (hv : SizedText version) (r : Recorded) :
    SizedHeader (headerOf version r) :=
  ⟨rfl, show 1 < 0x100000000 by decide, hv⟩

theorem size_lt_length_header (version : String) (r : Recorded) :
    version.utf8ByteSize < (writeHeader (headerOf version r)).length := by
  have hlen : (writeText version).length ≤ (writeHeader (headerOf version r)).length := by
    simp only [writeHeader, headerOf, List.length_append]
    omega
  have hpos := List.length_pos_iff.2 (writeNat_ne_nil version.utf8ByteSize)
  rw [writeText, List.length_append, length_ofText] at hlen
  omega

theorem writeRecord_eq (version : String) (r : Recorded) :
    writeRecord version r = Bytes.ofNat 4 (writeHeader (headerOf version r)).length ++
      (writeHeader (headerOf version r) ++ writeState r) :=
  List.append_assoc _ _ _

theorem openRecord_append {size front payload : Bytes} (hsize : size.length = 4)
    (hfront : front.length = Bytes.toNat size) (memory : Nat) (v : String) :
    openRecord memory v (size ++ (front ++ payload)) = (do
      let (header, _) ← readHeader memory front
      if header.magic = recordMagic ∧ header.format = recordFormat ∧ header.version = v ∧
          Digest.ofBytes payload = header.checksum then
        return payload
      else throw .refused) := by
  have hfour : readBytes 4 memory (size ++ (front ++ payload)) = .ok (size, front ++ payload) :=
    hsize ▸ reads_bytes size memory _
  have hrest : readBytes (Bytes.toNat size) memory (front ++ payload) = .ok (front, payload) :=
    hfront ▸ reads_bytes front memory _
  rw [openRecord, hfour]
  change (readBytes (Bytes.toNat size) memory (front ++ payload) >>= _) = _
  rw [hrest]
  rfl

theorem readRecord_writeRecord {version : String} {r : Recorded} (h : Fits version r)
    (memory : Nat) (v : String) : readRecord memory v (writeRecord version r) =
      if version = v then .ok r else .error .refused := by
  have hsize : Bytes.toNat (Bytes.ofNat 4 (writeHeader (headerOf version r)).length) =
      (writeHeader (headerOf version r)).length := Bytes.toNat_ofNat h.header
  have hversion : SizedText version := by
    have hl := h.header
    have hlt := size_lt_length_header version r
    rw [SizedText, wordLimit]
    omega
  have hheader : readHeader memory (writeHeader (headerOf version r)) =
      .ok (headerOf version r, []) := by
    have hr := inverts_header _ (sizedHeader_headerOf hversion r) memory []
    rwa [List.append_nil] at hr
  have hstate : readState memory (writeState r) = .ok (r, []) := by
    have hr := inverts_state r (.of_length h.state) memory []
    rwa [List.append_nil] at hr
  have hopen : openRecord memory v (writeRecord version r) =
      if version = v then .ok (writeState r) else .error .refused := by
    rw [writeRecord_eq, openRecord_append (Bytes.length_ofNat 4 _) hsize.symm, hheader]
    change ite _ _ _ = _
    by_cases hv : version = v
    · rw [if_pos hv]
      exact if_pos ⟨rfl, rfl, hv, rfl⟩
    · rw [if_neg hv]
      exact if_neg fun hall ↦ hv hall.2.2.1
  rw [readRecord, hopen]
  by_cases hv : version = v
  · rw [if_pos hv, if_pos hv]
    change (readState memory (writeState r) >>= _) = _
    rw [hstate]
    rfl
  · rw [if_neg hv, if_neg hv]
    rfl

end Records

end UpToDate.Codec

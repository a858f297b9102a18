import UpToDate.History.Store
import UpToDate.Proofs.History.Format
import UpToDate.Proofs.Result

namespace UpToDate

namespace Bytes

variable {mask : UInt8} {b : Bytes} {i : Nat}

theorem toNat_ofNat_le (w n : Nat) : toNat (ofNat w n) ≤ n := by
  induction w generalizing n with
  | zero => exact Nat.zero_le n
  | succ w ih =>
    have hhigh := ih (n / 256)
    rw [ofNat, toNat, UInt8.toNat_ofNat']
    omega

def flip (b : Bytes) (i : Nat) (mask : UInt8) : Bytes := b.modify i (· ^^^ mask)

@[simp] theorem length_flip (b : Bytes) (i : Nat) (mask : UInt8) :
    (b.flip i mask).length = b.length :=
  List.length_modify ..

theorem flip_append (b c : Bytes) (i : Nat) (mask : UInt8) : flip (b ++ c) i mask =
    if i < b.length then b.flip i mask ++ c else b ++ c.flip (i - b.length) mask := by
  induction b generalizing i with
  | nil => rfl
  | cons x rest ih =>
    cases i with
    | zero => rfl
    | succ i =>
      have hrest := ih i
      simp only [flip, List.cons_append, List.modify_succ_cons, List.length_cons,
        Nat.succ_lt_succ_iff, Nat.succ_sub_succ] at hrest ⊢
      rw [hrest]
      split <;> rfl

theorem flip_ne (hi : i < b.length) (hmask : mask ≠ 0) : b.flip i mask ≠ b := by
  intro h
  have hbyte : b[i] ^^^ mask = b[i] := by
    rw [← List.getElem_modify_eq (· ^^^ mask) i b (by simpa using hi)]
    exact List.getElem_of_eq h _
  apply hmask
  rwa [← UInt8.xor_right_inj b[i], UInt8.xor_zero]

end Bytes

namespace Codec

variable {α β : Type} {read : Reader α} {memory : Nat} {s t b p : Bytes} {a : α} {x : β}

section Readers

theorem exists_of_bind {k : α → Reader β} (h : (read >>= k) memory s = .ok (x, t)) :
    ∃ a u, read memory s = .ok (a, u) ∧ k a memory u = .ok (x, t) := by
  cases ha : read memory s with
  | error e =>
    rw [bind_of_error k ha] at h
    cases h
  | ok y =>
    obtain ⟨a, u⟩ := y
    rw [bind_of_ok k ha] at h
    exact ⟨a, u, rfl, h⟩

theorem overflow_of_bind {k : α → Reader β} (h : (read >>= k) memory s = .error .overflow) :
    read memory s = .error .overflow ∨
      ∃ a u, read memory s = .ok (a, u) ∧ k a memory u = .error .overflow := by
  cases ha : read memory s with
  | error e =>
    rw [bind_of_error k ha] at h
    cases h
    exact .inl rfl
  | ok y =>
    obtain ⟨a, u⟩ := y
    rw [bind_of_ok k ha] at h
    exact .inr ⟨a, u, rfl, h⟩

theorem eq_of_readBytes {n : Nat} (h : readBytes n memory s = .ok (b, t)) :
    s = b ++ t ∧ b.length = n := by
  rw [readBytes] at h
  split at h
  · next hn =>
    cases h
    exact ⟨(List.take_append_drop n s).symm, by rw [List.length_take, Nat.min_eq_left hn]⟩
  · cases h

theorem eq_of_readDigest {d : Digest} (h : readDigest memory s = .ok (d, t)) :
    s = d.bytes ++ t := by
  rw [readDigest] at h
  split at h
  · cases h
    exact (List.take_append_drop 16 s).symm
  · cases h

theorem exists_of_readNat {width n : Nat} (h : readNat width memory s = .ok (n, t)) :
    ∃ b, s = b ++ t ∧ Says n b ∧ b.length ≤ width + 1 := by
  have hwide {w : Nat} {u : Bytes} (h : (do return Bytes.toNat (← readBytes w) : Reader Nat) memory
      u = .ok (n, t)) : ∃ b, u = b ++ t ∧ b.length = w ∧ Bytes.toNat b = n := by
    obtain ⟨b, u', hb, hn⟩ := exists_of_bind h
    obtain ⟨rfl, hw⟩ := eq_of_readBytes hb
    cases hn
    exact ⟨b, rfl, hw, rfl⟩
  obtain ⟨x, u, hx, hrest⟩ := exists_of_bind h
  obtain ⟨rfl, hone⟩ := eq_of_readBytes hx
  obtain ⟨m, rfl⟩ := List.length_eq_one_iff.1 hone
  dsimp only at hrest
  split at hrest
  · next hm =>
    cases hrest
    exact ⟨[m], rfl, .one m hm, by simp⟩
  split at hrest
  · next hm =>
    obtain ⟨b, rfl, hb, rfl⟩ := hwide hrest
    obtain rfl : m = 251 := UInt8.toNat_inj.1 hm.1
    exact ⟨251 :: b, rfl, .two b hb, by simp [hb, hm.2]⟩
  split at hrest
  · next hm =>
    obtain ⟨b, rfl, hb, rfl⟩ := hwide hrest
    obtain rfl : m = 252 := UInt8.toNat_inj.1 hm.1
    exact ⟨252 :: b, rfl, .four b hb, by simp [hb, hm.2]⟩
  split at hrest
  · next hm =>
    obtain ⟨b, rfl, hb, rfl⟩ := hwide hrest
    obtain rfl : m = 253 := UInt8.toNat_inj.1 hm.1
    exact ⟨253 :: b, rfl, .eight b hb, by simp [hb, hm.2]⟩
  · cases hrest

theorem eq_of_toText? {x : String} (h : Bytes.toText? b = some x) : b = Bytes.ofText x := by
  rw [Bytes.toText?, String.fromUTF8?] at h
  split at h
  · cases h
    rfl
  · cases h

theorem eq_of_readTextOf {n : Nat} {x : String} (h : readTextOf n memory s = .ok (x, t)) :
    s = Bytes.ofText x ++ t ∧ x.utf8ByteSize = n := by
  obtain ⟨_, u, hclaim, hrest⟩ := exists_of_bind h
  obtain ⟨c, u', hc, htext⟩ := exists_of_bind hrest
  have hsame : u = s := by
    rw [claim] at hclaim
    split at hclaim
    · cases hclaim
      rfl
    · cases hclaim
  subst hsame
  obtain ⟨rfl, hn⟩ := eq_of_readBytes hc
  cases hx : Bytes.toText? c with
  | none =>
    rw [hx] at htext
    cases htext
  | some y =>
    rw [hx] at htext
    cases htext
    rw [eq_of_toText? hx, length_ofText] at hn
    exact ⟨by rw [eq_of_toText? hx], hn⟩

theorem exists_of_readText {x : String} (h : readText memory s = .ok (x, t)) :
    ∃ b, s = b ++ Bytes.ofText x ++ t ∧ Says x.utf8ByteSize b := by
  obtain ⟨n, u, hn, htext⟩ := exists_of_bind h
  obtain ⟨b, rfl, hform, -⟩ := exists_of_readNat hn
  obtain ⟨rfl, rfl⟩ := eq_of_readTextOf htext
  exact ⟨b, (List.append_assoc b _ t).symm, hform⟩

theorem length_writeHeader (h : Header) : (writeHeader h).length =
    h.magic.length + (writeNat h.format).length + (writeNat h.version.utf8ByteSize).length +
      h.version.utf8ByteSize + 16 := by
  simp only [writeHeader, writeText, writeDigest, List.length_append, length_ofText,
    h.checksum.length_bytes]
  omega

theorem eq_of_readHeader {h : Header} (hs : readHeader memory s = .ok (h, t)) :
    (writeHeader h).length ≤ s.length ∧
      (s.length ≤ (writeHeader h).length → s = writeHeader h) := by
  obtain ⟨magic, u₁, hmagic, hrest⟩ := exists_of_bind hs
  obtain ⟨format, u₂, hformat, hrest⟩ := exists_of_bind hrest
  obtain ⟨version, u₃, hversion, hrest⟩ := exists_of_bind hrest
  obtain ⟨checksum, u₄, hchecksum, hrest⟩ := exists_of_bind hrest
  cases hrest
  obtain ⟨rfl, -⟩ := eq_of_readBytes hmagic
  obtain ⟨f, rfl, hf, -⟩ := exists_of_readNat hformat
  obtain ⟨v, rfl, hv⟩ := exists_of_readText hversion
  obtain rfl := eq_of_readDigest hchecksum
  obtain ⟨hfle, hfeq⟩ := hf.eq_writeNat
  obtain ⟨hvle, hveq⟩ := hv.eq_writeNat
  simp only [length_writeHeader, List.length_append, length_ofText, checksum.length_bytes]
  refine ⟨by omega, fun hle ↦ ?_⟩
  have ht : t = [] := List.eq_nil_of_length_eq_zero (by omega)
  rw [hfeq (by omega), hveq (by omega), ht]
  simp only [writeHeader, writeText, writeDigest, List.append_assoc, List.append_nil]

end Readers

section Frugal

/-- A reader that claims no memory. -/
def Frugal (read : Reader α) : Prop := ∀ memory s, read memory s ≠ .error .overflow

theorem Frugal.pure (a : α) : Frugal (pure a) := nofun

theorem frugal_refuse : Frugal (refuse : Reader α) := nofun

theorem Frugal.bind {k : α → Reader β} (h : Frugal read) (hk : ∀ a, Frugal (k a)) :
    Frugal (read >>= k) := by
  intro memory s ho
  rcases overflow_of_bind ho with ho | ⟨a, u, -, ho⟩
  · exact h memory s ho
  · exact hk a memory u ho

theorem frugal_bytes (n : Nat) : Frugal (readBytes n) := by
  intro memory s ho
  rw [readBytes] at ho
  split at ho <;> cases ho

theorem frugal_digest : Frugal readDigest := by
  intro memory s ho
  rw [readDigest] at ho
  split at ho <;> cases ho

theorem frugal_nat (width : Nat) : Frugal (readNat width) := by
  have hwide (w : Nat) : Frugal (do return Bytes.toNat (← readBytes w)) :=
    (frugal_bytes w).bind fun _ ↦ .pure _
  refine (frugal_bytes 1).bind fun x ↦ ?_
  match x with
  | [] => exact frugal_refuse
  | [b] =>
    dsimp only
    split
    · exact .pure _
    split
    · exact hwide 2
    split
    · exact hwide 4
    split
    · exact hwide 8
    · exact frugal_refuse
  | _ :: _ :: _ => exact frugal_refuse

theorem readTextOf_eq_overflow_iff {n : Nat} :
    readTextOf n memory s = .error .overflow ↔ s.length < n ∧ memory < n := by
  by_cases hn : n ≤ s.length ∨ n ≤ memory
  · have hclaim : claim n memory s = .ok ((), s) := if_pos hn
    rw [readTextOf, bind_of_ok _ hclaim]
    refine iff_of_false ((frugal_bytes n).bind (fun b ↦ ?_) memory s) (by omega)
    cases Bytes.toText? b with
    | none => exact frugal_refuse
    | some x => exact .pure x
  · have hclaim : claim n memory s = .error .overflow := if_neg hn
    rw [readTextOf, bind_of_error _ hclaim]
    exact iff_of_true rfl (by omega)

/-- A text uses up the memory if it is announced to be longer than the memory and the input. -/
theorem readText_eq_overflow_iff : readText memory s = .error .overflow ↔
    ∃ l rest n, s = l ++ rest ∧ Says n l ∧ rest.length < n ∧ memory < n := by
  constructor
  · intro h
    obtain ⟨n, rest, hn, htext⟩ := (overflow_of_bind h).resolve_left (frugal_nat 8 memory s)
    obtain ⟨l, rfl, hform, -⟩ := exists_of_readNat hn
    obtain ⟨hshort, hmemory⟩ := readTextOf_eq_overflow_iff.1 htext
    exact ⟨l, rest, n, rfl, hform, hshort, hmemory⟩
  · rintro ⟨l, rest, n, rfl, hform, hshort, hmemory⟩
    rw [readText, bind_of_ok _ (hform.reads hform.length_le memory rest)]
    exact readTextOf_eq_overflow_iff.2 ⟨hshort, hmemory⟩

/-- A header announces a version that is longer than the memory and than all that follows. -/
def Overlong (memory : Nat) (front : Bytes) : Prop :=
  ∃ magic f l rest k n, front = magic ++ (f ++ (l ++ rest)) ∧ magic.length = 4 ∧
    Says k f ∧ f.length ≤ 5 ∧ Says n l ∧ rest.length < n ∧ memory < n

theorem readHeader_eq_overflow_iff :
    readHeader memory s = .error .overflow ↔ Overlong memory s := by
  constructor
  · intro h
    obtain ⟨magic, u₁, hmagic, h₁⟩ := (overflow_of_bind h).resolve_left (frugal_bytes 4 memory s)
    obtain ⟨k, u₂, hformat, h₂⟩ := (overflow_of_bind h₁).resolve_left (frugal_nat 4 memory u₁)
    obtain ⟨rfl, hfour⟩ := eq_of_readBytes hmagic
    obtain ⟨f, rfl, hf, hwidth⟩ := exists_of_readNat hformat
    rcases overflow_of_bind h₂ with htext | ⟨version, u₃, -, hdigest⟩
    · obtain ⟨l, rest, n, rfl, hl, hshort, hmemory⟩ := readText_eq_overflow_iff.1 htext
      exact ⟨magic, f, l, rest, k, n, rfl, hfour, hf, hwidth, hl, hshort, hmemory⟩
    · exact absurd hdigest (frugal_digest.bind (fun _ ↦ .pure _) memory u₃)
  · rintro ⟨magic, f, l, rest, k, n, rfl, hfour, hf, hwidth, hl, hshort, hmemory⟩
    have hmagic : readBytes 4 memory (magic ++ (f ++ (l ++ rest))) =
        .ok (magic, f ++ (l ++ rest)) :=
      hfour ▸ reads_bytes magic memory _
    have htext := readText_eq_overflow_iff.2 ⟨l, rest, n, rfl, hl, hshort, hmemory⟩
    rw [readHeader, bind_of_ok _ hmagic, bind_of_ok _ (hf.reads hwidth memory (l ++ rest)),
      bind_of_error _ htext]

end Frugal

section Steady

/-- What a reader takes off an input it takes off every input with this front. Where it uses up the
memory, it does so too with more input that the memory can hold. -/
structure Steady (read : Reader α) : Prop where
  takes : ∀ memory s a t, read memory s = .ok (a, t) → ∃ b, s = b ++ t ∧ Reads read b a
  overflows : ∀ memory s e, read memory s = .error .overflow → (s ++ e).length ≤ memory →
    read memory (s ++ e) = .error .overflow

theorem Frugal.steady (hfrugal : Frugal read)
    (h : ∀ memory s a t, read memory s = .ok (a, t) → ∃ b, s = b ++ t ∧ Reads read b a) :
    Steady read :=
  ⟨h, fun memory s _ ho _ ↦ absurd ho (hfrugal memory s)⟩

theorem Steady.pure (a : α) : Steady (pure a) := by
  refine (Frugal.pure a).steady fun memory s x t h ↦ ?_
  cases h
  exact ⟨[], rfl, .pure a⟩

theorem Steady.bind {k : α → Reader β} (h : Steady read) (hk : ∀ a, Steady (k a)) :
    Steady (read >>= k) := by
  refine ⟨fun memory s x t hs ↦ ?_, fun memory s e ho hle ↦ ?_⟩
  · obtain ⟨a, u, ha, hx⟩ := exists_of_bind hs
    obtain ⟨b, rfl, hb⟩ := h.takes memory s a u ha
    obtain ⟨c, rfl, hc⟩ := (hk a).takes memory u x t hx
    exact ⟨b ++ c, (List.append_assoc b c t).symm, hb.bind hc⟩
  · rcases overflow_of_bind ho with hfirst | ⟨a, u, ha, hrest⟩
    · exact bind_of_error k (h.overflows memory s e hfirst hle)
    · obtain ⟨b, rfl, hb⟩ := h.takes memory s a u ha
      rw [List.append_assoc] at hle ⊢
      rw [bind_of_ok k (hb memory (u ++ e))]
      refine (hk a).overflows memory u e hrest ?_
      rw [List.length_append] at hle
      omega

theorem Steady.map (h : Steady read) (f : α → β) : Steady (do return f (← read)) :=
  h.bind fun a ↦ .pure (f a)

theorem steady_bytes (n : Nat) : Steady (readBytes n) := by
  refine (frugal_bytes n).steady fun memory s b t h ↦ ?_
  obtain ⟨rfl, rfl⟩ := eq_of_readBytes h
  exact ⟨b, rfl, reads_bytes b⟩

theorem steady_digest : Steady readDigest :=
  frugal_digest.steady fun _ _ d _ h ↦ ⟨d.bytes, eq_of_readDigest h, inverts_digest d trivial⟩

theorem steady_nat (width : Nat) : Steady (readNat width) := by
  refine (frugal_nat width).steady fun memory s n t h ↦ ?_
  obtain ⟨b, hs, hform, hb⟩ := exists_of_readNat h
  exact ⟨b, hs, hform.reads hb⟩

theorem steady_textOf (n : Nat) : Steady (readTextOf n) := by
  refine ⟨fun memory s x t h ↦ ?_, fun memory s e ho hle ↦ ?_⟩
  · obtain ⟨rfl, rfl⟩ := eq_of_readTextOf h
    exact ⟨Bytes.ofText x, rfl, reads_textOf x⟩
  · obtain ⟨-, hmemory⟩ := readTextOf_eq_overflow_iff.1 ho
    exact readTextOf_eq_overflow_iff.2 ⟨by omega, hmemory⟩

theorem steady_text : Steady readText := (steady_nat 8).bind steady_textOf

theorem Steady.entries (h : Steady read) (n : Nat) : Steady (readEntries read n) := by
  induction n with
  | zero => exact .pure []
  | succ n ih => exact steady_text.bind fun k ↦ h.bind fun a ↦ ih.map ((k, a) :: ·)

theorem Steady.dict (h : Steady read) : Steady (readMap read) :=
  (steady_nat 8).bind fun n ↦ (h.entries n).map Dict.ofList

theorem steady_origin : Steady readOrigin :=
  steady_text.bind fun _ ↦ steady_text.bind fun _ ↦ (steady_nat 8).bind fun _ ↦
    (steady_nat 8).map _

theorem steady_state : Steady readState :=
  steady_digest.dict.bind fun _ ↦ steady_digest.dict.dict.bind fun _ ↦
    steady_digest.dict.dict.bind fun _ ↦ steady_origin.map _

theorem steady_header : Steady readHeader :=
  (steady_bytes 4).bind fun _ ↦ (steady_nat 4).bind fun _ ↦ steady_text.bind fun _ ↦
    steady_digest.map _

/-- Nothing is read off a part of what is taken, and if the memory could hold the whole there is
enough for the part. -/
theorem Steady.cut (h : Steady read) (hb : Reads read b a) (hp : p <+: b) (hne : p ≠ b)
    (memory : Nat) : (∀ x, read memory p ≠ .ok x) ∧
      (b.length ≤ memory → read memory p = .error .refused) := by
  obtain ⟨e, rfl⟩ := hp
  have hwhole := hb memory []
  rw [List.append_nil] at hwhole
  have hnot : ∀ x, read memory p ≠ .ok x := by
    rintro ⟨x, t⟩ hx
    obtain ⟨c, rfl, hc⟩ := h.takes memory p x t hx
    rw [List.append_assoc, hc memory (t ++ e)] at hwhole
    obtain ⟨-, hnil⟩ := Prod.mk.inj (Except.ok.inj hwhole)
    rw [(List.append_eq_nil_iff.1 hnil).2, List.append_nil] at hne
    exact hne rfl
  refine ⟨hnot, fun hle ↦ ?_⟩
  cases hx : read memory p with
  | ok x => exact absurd hx (hnot x)
  | error o =>
    cases o with
    | refused => rfl
    | overflow =>
      rw [h.overflows memory p e hx hle] at hwhole
      cases hwhole

end Steady

section Records

variable {version v : String} {r r' : Recorded} {front size payload : Bytes} {c : Digest}

theorem exists_parts (h : openRecord memory v b ≠ .error .refused) : ∃ size front payload,
    b = size ++ (front ++ payload) ∧ size.length = 4 ∧ front.length = Bytes.toNat size := by
  rw [openRecord] at h
  cases hsize : readBytes 4 memory b with
  | error o =>
    rw [hsize] at h
    cases o with
    | refused => exact absurd rfl h
    | overflow => exact absurd hsize (frugal_bytes 4 memory b)
  | ok x =>
    obtain ⟨size, rest⟩ := x
    obtain ⟨rfl, hfour⟩ := eq_of_readBytes hsize
    rw [hsize] at h
    change (readBytes (Bytes.toNat size) memory rest >>= _) ≠ _ at h
    cases hfront : readBytes (Bytes.toNat size) memory rest with
    | error o =>
      rw [hfront] at h
      cases o with
      | refused => exact absurd rfl h
      | overflow => exact absurd hfront (frugal_bytes _ memory rest)
    | ok x =>
      obtain ⟨front, payload⟩ := x
      obtain ⟨rfl, hlength⟩ := eq_of_readBytes hfront
      exact ⟨size, front, payload, rfl, hfour, hlength⟩

section Parts

variable (hsize : size.length = 4) (hfront : front.length = Bytes.toNat size)
include hsize hfront

theorem eq_of_openRecord (h : openRecord memory v (size ++ (front ++ payload)) = .ok b) :
    b = payload ∧ ∃ t,
      readHeader memory front = .ok (⟨recordMagic, recordFormat, v, .ofBytes payload⟩, t) := by
  rw [openRecord_append hsize hfront] at h
  cases hheader : readHeader memory front with
  | error o =>
    rw [hheader] at h
    cases h
  | ok x =>
    obtain ⟨⟨magic, format, version, checksum⟩, t⟩ := x
    rw [hheader] at h
    change ite _ _ _ = _ at h
    split at h
    · next hall =>
      obtain ⟨rfl, rfl, rfl, rfl⟩ := hall
      cases h
      exact ⟨rfl, t, rfl⟩
    · cases h

theorem openRecord_of_header_error {o : Stop} (h : readHeader memory front = .error o) :
    openRecord memory v (size ++ (front ++ payload)) = .error o := by
  rw [openRecord_append hsize hfront, h]
  rfl

theorem openRecord_of_header_ok {x : Header × Bytes} (h : readHeader memory front = .ok x) :
    openRecord memory v (size ++ (front ++ payload)) = .error .refused ∨
      openRecord memory v (size ++ (front ++ payload)) = .ok payload := by
  rw [openRecord_append hsize hfront, h]
  change ite _ _ _ = _ ∨ ite _ _ _ = _
  split
  · exact .inr rfl
  · exact .inl rfl

theorem openRecord_eq_overflow_iff :
    openRecord memory v (size ++ (front ++ payload)) = .error .overflow ↔
      readHeader memory front = .error .overflow := by
  cases h : readHeader memory front with
  | error o => rw [openRecord_of_header_error hsize hfront h]; simp
  | ok x =>
    have hopened : openRecord memory v (size ++ (front ++ payload)) = .error .refused ∨
        openRecord memory v (size ++ (front ++ payload)) = .ok payload :=
      openRecord_of_header_ok hsize hfront h
    rcases hopened with ho | ho <;> simp [ho]

end Parts

theorem readRecord_of_open {o : Stop} (h : openRecord memory v b = .ok payload)
    (hstate : readState memory payload = .error o) : readRecord memory v b = .error o := by
  rw [readRecord, h]
  change (readState memory payload >>= _) = _
  rw [hstate]
  rfl

theorem readRecord_of_error {o : Stop} (h : openRecord memory v b = .error o) :
    readRecord memory v b = .error o := by
  rw [readRecord, h]
  rfl

/-- What stops whenever a part of it stops is refused where the part is. -/
theorem refused_of_part {whole : Except Stop α} {part : Except Stop β} {m n : Nat}
    (hpart : (∀ x, part ≠ .ok x) ∧ (m ≤ memory → part = .error .refused)) (hle : m ≤ n)
    (hstops : ∀ o, part = .error o → whole = .error o) :
    (∀ x, whole ≠ .ok x) ∧ (n ≤ memory → whole = .error .refused) := by
  obtain ⟨hnot, hrefused⟩ := hpart
  refine ⟨?_, fun hn ↦ hstops _ (hrefused (Nat.le_trans hle hn))⟩
  cases part with
  | ok x => exact absurd rfl (hnot x)
  | error o =>
    rw [hstops o rfl]
    simp

theorem readRecord_of_cut (hr : SizedState r) (hv : SizedText version)
    (hp : p <+: writeRecord version r) (hne : p ≠ writeRecord version r) (memory : Nat) :
    (∀ x, readRecord memory v p ≠ .ok x) ∧ ((writeRecord version r).length ≤ memory →
      readRecord memory v p = .error .refused) := by
  by_cases hopen : openRecord memory v p = .error .refused
  · rw [readRecord_of_error hopen]
    exact ⟨nofun, fun _ ↦ rfl⟩
  obtain ⟨size, front, payload, rfl, hsize, hfront⟩ := exists_parts hopen
  obtain ⟨e, he⟩ := hp
  rw [writeRecord_eq, List.append_assoc, List.append_assoc] at he
  obtain ⟨rfl, hrest⟩ := List.append_inj he (by rw [hsize, Bytes.length_ofNat])
  have hlength : (writeRecord version r).length =
      4 + ((writeHeader (headerOf version r)).length + (writeState r).length) := by
    rw [writeRecord_eq, List.length_append, List.length_append, Bytes.length_ofNat]
  have hshort : front.length ≤ (writeHeader (headerOf version r)).length := by
    rw [hfront]
    exact Bytes.toNat_ofNat_le 4 _
  have hstarts : front <+: writeHeader (headerOf version r) := by
    refine List.prefix_of_prefix_length_le ?_ (List.prefix_append _ (writeState r)) hshort
    rw [← hrest]
    exact List.prefix_append _ _
  have hreads := inverts_header _ (sizedHeader_headerOf hv r)
  by_cases hwhole : front = writeHeader (headerOf version r)
  · -- the header is whole, so it is the state that is cut short
    rw [hwhole, List.append_cancel_left_eq] at hrest
    have hcut : payload ≠ writeState r := by
      rintro rfl
      exact hne (by rw [writeRecord_eq, hwhole])
    have hheader := hreads memory []
    rw [List.append_nil, ← hwhole] at hheader
    have ho := (openRecord_of_header_ok hsize hfront hheader).resolve_left hopen
    exact refused_of_part (steady_state.cut (inverts_state r hr) ⟨e, hrest⟩ hcut memory)
      (by omega) fun _ ↦ readRecord_of_open ho
  · exact refused_of_part (steady_header.cut hreads hstarts hwhole memory) (by omega)
      fun _ h ↦ readRecord_of_error (openRecord_of_header_error hsize hfront h)

/-- The bytes that a reader takes for the state: all that follows the header, which is as long as
the first four bytes say. -/
def payloadOf (b : Bytes) : Bytes := b.drop (4 + Bytes.toNat (b.take 4))

theorem payloadOf_append {size front : Bytes} (hsize : size.length = 4)
    (hfront : front.length = Bytes.toNat size) (payload : Bytes) :
    payloadOf (size ++ (front ++ payload)) = payload := by
  have htake : (size ++ (front ++ payload)).take 4 = size := by rw [← hsize, List.take_left]
  rw [payloadOf, htake, ← hsize, ← hfront, ← List.append_assoc, ← List.length_append,
    List.drop_left]

def frontOf (b : Bytes) : Bytes := (b.drop 4).take (Bytes.toNat (b.take 4))

theorem frontOf_append {size front : Bytes} (hsize : size.length = 4)
    (hfront : front.length = Bytes.toNat size) (payload : Bytes) :
    frontOf (size ++ (front ++ payload)) = front := by
  have htake : (size ++ (front ++ payload)).take 4 = size := by rw [← hsize, List.take_left]
  have hdrop : (size ++ (front ++ payload)).drop 4 = front ++ payload := by
    rw [← hsize, List.drop_left]
  rw [frontOf, htake, hdrop, ← hfront, List.take_left]

section Flips

theorem header_bounds
    (h : readHeader memory front = .ok (⟨recordMagic, recordFormat, v, c⟩, t))
    (r : Recorded) : (writeHeader (headerOf v r)).length ≤ front.length ∧
      (front.length ≤ (writeHeader (headerOf v r)).length →
        front = writeHeader ⟨recordMagic, recordFormat, v, c⟩) := by
  have hsame : (writeHeader (headerOf v r)).length =
      (writeHeader ⟨recordMagic, recordFormat, v, c⟩).length := by
    rw [length_writeHeader, length_writeHeader]
    rfl
  rw [hsame]
  exact eq_of_readHeader h

theorem exists_of_starts (hsmall : front.length < wordLimit)
    (hstarts : writeHeader (headerOf v r) <+: front) (memory : Nat) :
    ∃ t, readHeader memory front = .ok (headerOf v r, t) := by
  have hversion : SizedText v := by
    have hlt := size_lt_length_header v r
    have hle := hstarts.length_le
    rw [SizedText]
    omega
  obtain ⟨e, rfl⟩ := hstarts
  exact ⟨e, inverts_header _ (sizedHeader_headerOf hversion r) memory e⟩

theorem checksum_of_starts
    (h : readHeader memory front = .ok (⟨recordMagic, recordFormat, v, c⟩, t))
    (hsmall : front.length < wordLimit) (hstarts : writeHeader (headerOf v r) <+: front) :
    c = .ofBytes (writeState r) := by
  obtain ⟨u, hu⟩ := exists_of_starts hsmall hstarts memory
  rw [h] at hu
  cases hu
  rfl

theorem payload_ne (hsize : size.length = 4) (hfront : front.length = Bytes.toNat size)
    (hrest : writeHeader (headerOf v r) ++ writeState r = front ++ payload)
    (hne : size ≠ Bytes.ofNat 4 (writeHeader (headerOf v r)).length) : payload ≠ writeState r := by
  rintro rfl
  have hwhole : writeHeader (headerOf v r) = front := List.append_cancel_right hrest
  exact hne (Bytes.eq_ofNat hsize (by rw [hwhole, hfront]))

variable {i : Nat} {mask : UInt8}

/-- A record with a changed byte is opened only if another payload is seen that has the hash of the
state. -/
theorem payload_of_openRecord_flip (hi : i < (writeRecord v r).length) (hmask : mask ≠ 0)
    (h : openRecord memory v ((writeRecord v r).flip i mask) = .ok b) :
    payloadOf ((writeRecord v r).flip i mask) ≠ writeState r ∧
      Digest.ofBytes (payloadOf ((writeRecord v r).flip i mask)) =
        Digest.ofBytes (writeState r) := by
  have hopened : openRecord memory v ((writeRecord v r).flip i mask) ≠ .error .refused := by
    rw [h]
    nofun
  obtain ⟨size, front, payload, hb, hsize, hfront⟩ := exists_parts hopened
  rw [hb] at h
  obtain ⟨-, t, hheader⟩ := eq_of_openRecord hsize hfront h
  rw [hb, payloadOf_append hsize hfront]
  obtain ⟨hlong, hexact⟩ := header_bounds hheader r
  have hsmall : front.length < wordLimit := by
    have hlt : Bytes.toNat size < 0x100000000 := Bytes.toNat_lt hsize
    rw [wordLimit]
    omega
  rw [writeRecord_eq, List.length_append, List.length_append, Bytes.length_ofNat] at hi
  rw [writeRecord_eq, Bytes.flip_append, Bytes.length_ofNat] at hb
  split at hb
  · next hlow =>
    -- The length of the header is changed: it is not shorter, so the true header is in front.
    obtain ⟨rfl, hrest⟩ := List.append_inj hb (by rw [Bytes.length_flip, Bytes.length_ofNat, hsize])
    have hstarts : writeHeader (headerOf v r) <+: front := by
      refine List.prefix_of_prefix_length_le (List.prefix_append _ (writeState r)) ?_ hlong
      rw [hrest]
      exact List.prefix_append _ _
    have hne := Bytes.flip_ne (b := Bytes.ofNat 4 (writeHeader (headerOf v r)).length)
      (by rwa [Bytes.length_ofNat]) hmask
    exact ⟨payload_ne hsize hfront hrest hne, checksum_of_starts hheader hsmall hstarts⟩
  · obtain ⟨rfl, hrest⟩ := List.append_inj hb (by rw [Bytes.length_ofNat, hsize])
    have hshort : front.length ≤ (writeHeader (headerOf v r)).length := by
      rw [hfront]
      exact Bytes.toNat_ofNat_le 4 _
    have hlength : (writeHeader (headerOf v r)).length = front.length := by omega
    rw [Bytes.flip_append] at hrest
    split at hrest
    · next hinner =>
      -- A header with the hash of the state that is no longer than the true one is the true one.
      obtain ⟨hflip, rfl⟩ := List.append_inj hrest (by rw [Bytes.length_flip, hlength])
      rw [hexact hshort] at hflip
      exact absurd hflip (Bytes.flip_ne hinner hmask)
    · obtain ⟨rfl, rfl⟩ := List.append_inj hrest hlength
      exact ⟨Bytes.flip_ne (by omega) hmask,
        checksum_of_starts hheader hsmall (List.prefix_refl _)⟩

theorem starts_of_short (hsize : size.length = 4) (hb : (writeRecord v r).flip i mask = size ++ b)
    (hshort : b.length < Bytes.toNat size) : b = writeHeader (headerOf v r) ++ writeState r := by
  rw [writeRecord_eq, Bytes.flip_append, Bytes.length_ofNat] at hb
  split at hb
  · obtain ⟨-, hrest⟩ := List.append_inj hb (by rw [Bytes.length_flip, Bytes.length_ofNat, hsize])
    exact hrest.symm
  · -- with its true length the header is there
    obtain ⟨rfl, rfl⟩ := List.append_inj hb (by rw [Bytes.length_ofNat, hsize])
    have hle := Bytes.toNat_ofNat_le 4 (writeHeader (headerOf v r)).length
    rw [Bytes.length_flip, List.length_append] at hshort
    omega

/-- A record with a changed byte uses up the memory before its state is read exactly if the version
of the header that is then seen is too long. -/
theorem openRecord_flip_eq_overflow_iff :
    openRecord memory v ((writeRecord v r).flip i mask) = .error .overflow ↔
      Overlong memory (frontOf ((writeRecord v r).flip i mask)) := by
  obtain ⟨size, rest, hb, hsize⟩ : ∃ size rest,
      (writeRecord v r).flip i mask = size ++ rest ∧ size.length = 4 := by
    refine ⟨_, _, (List.take_append_drop 4 _).symm, ?_⟩
    rw [List.length_take, Bytes.length_flip, writeRecord_eq, List.length_append, Bytes.length_ofNat]
    omega
  by_cases hshort : rest.length < Bytes.toNat size
  · -- the record ends within its header, so the true header is in front, and that is read
    have hlt : Bytes.toNat size < 0x100000000 := Bytes.toNat_lt hsize
    have hfront : frontOf ((writeRecord v r).flip i mask) = rest := by
      rw [frontOf, hb, ← hsize, List.take_left, List.drop_left]
      exact List.take_of_length_le (by omega)
    have hstarts : writeHeader (headerOf v r) <+: rest :=
      starts_of_short hsize hb hshort ▸ List.prefix_append _ _
    obtain ⟨t, ht⟩ := exists_of_starts (by rw [wordLimit]; omega) hstarts memory
    rw [hfront, ← readHeader_eq_overflow_iff, ht]
    refine iff_of_false (fun h ↦ ?_) (by simp)
    have hopened : openRecord memory v ((writeRecord v r).flip i mask) ≠ .error .refused := by
      rw [h]
      simp
    obtain ⟨size', front, payload, hb', hsize', hfront'⟩ := exists_parts hopened
    rw [hb] at hb'
    obtain ⟨rfl, rfl⟩ := List.append_inj hb' (by rw [hsize, hsize'])
    rw [List.length_append] at hshort
    omega
  · have hfront : (rest.take (Bytes.toNat size)).length = Bytes.toNat size := by
      rw [List.length_take, Nat.min_eq_left (by omega)]
    rw [← List.take_append_drop (Bytes.toNat size) rest] at hb
    rw [hb, frontOf_append hsize hfront, openRecord_eq_overflow_iff hsize hfront,
      readHeader_eq_overflow_iff]

end Flips

end Records

end Codec

namespace Store

variable {s : Store} {work version : String} {r : Recorded} {d : Disk} {b : Bytes}

theorem read_of_file (h : d.read (s.recordPath work) = .ok b) :
    s.read work d = Codec.readRecord s.memory s.version b := by
  rw [Store.read, h]
  rfl

/-- Nothing is loaded from a record that is cut short, and it is refused if the memory could hold
the whole. This does not hang on the hash: no part of a state that is cut short is read as a
state. -/
theorem load_eq_none_of_cut (hr : Codec.SizedState r) (hv : Codec.SizedText version)
    (hstarts : b <+: Codec.writeRecord version r) (hne : b ≠ Codec.writeRecord version r)
    (hread : d.read (s.recordPath work) = .ok b) :
    s.load work d = none ∧
      ((Codec.writeRecord version r).length ≤ s.memory → s.read work d = .error .refused) ∧
      ∀ p, p <+: Codec.writeState r → p ≠ Codec.writeState r → ∀ memory,
        (∀ x, Codec.readState memory p ≠ .ok x) ∧
          ((Codec.writeState r).length ≤ memory → Codec.readState memory p = .error .refused) := by
  obtain ⟨hnot, hrefused⟩ := Codec.readRecord_of_cut (v := s.version) hr hv hstarts hne s.memory
  refine ⟨?_, ?_, fun p hp hcut ↦ ?_⟩
  · rw [load, read_of_file hread]
    cases h : Codec.readRecord s.memory s.version b with
    | ok x => exact absurd h (hnot x)
    | error o => rfl
  · rw [read_of_file hread]
    exact hrefused
  · exact Codec.steady_state.cut (Codec.inverts_state r hr) hp hcut

def oneRecord (work : String) (b : Bytes) : Disk :=
  (Disk.empty.put [] "h" .directory).put ["h"] (recordName work) (.file b)

def oneInput : Recorded where
  values := .empty
  inputs := .ofList [("src", .ofList [("a.c", .directory)])]
  outputs := .empty
  origin := ⟨"i", "a", 1, 2⟩

theorem load_cutRecord :
    (under "h" "1").load "a" (oneRecord "a" ((Codec.writeRecord "1" oneInput).take 30)) = none := by
  have hstate : Codec.SizedState oneInput := .of_length (by decide +kernel)
  have hversion : Codec.SizedText "1" := by
    change "1".utf8ByteSize < Codec.wordLimit
    decide +kernel
  have hread : (oneRecord "a" ((Codec.writeRecord "1" oneInput).take 30)).read
      ((under "h" "1").recordPath "a") = .ok ((Codec.writeRecord "1" oneInput).take 30) :=
    eq_ok_of_toOption (by decide +kernel)
  exact (load_eq_none_of_cut hstate hversion (List.take_prefix 30 _) (by decide +kernel)
    hread).1

/-- Nothing is loaded from a record of which one byte is changed, unless the payload that is then
seen is not the state and has the hash of the state. Yet it is not refused, but uses up the memory,
exactly if the version of the header that is then seen is too long. -/
theorem read_of_flip {i : Nat} {mask : UInt8}
    (hi : i < (Codec.writeRecord s.version r).length) (hmask : mask ≠ 0)
    (hread : d.read (s.recordPath work) = .ok ((Codec.writeRecord s.version r).flip i mask)) :
    s.load work d = none ∧ (s.Overflows work d ↔
        Codec.Overlong s.memory (Codec.frontOf ((Codec.writeRecord s.version r).flip i mask))) ∨
      Codec.payloadOf ((Codec.writeRecord s.version r).flip i mask) ≠ Codec.writeState r ∧
        Digest.ofBytes (Codec.payloadOf ((Codec.writeRecord s.version r).flip i mask)) =
          Digest.ofBytes (Codec.writeState r) := by
  cases h : Codec.openRecord s.memory s.version ((Codec.writeRecord s.version r).flip i mask) with
  | ok payload => exact .inr (Codec.payload_of_openRecord_flip hi hmask h)
  | error o =>
    have herror : s.read work d = .error o := by
      rw [read_of_file hread, Codec.readRecord_of_error h]
    refine .inl ⟨by rw [load, herror]; rfl, ?_⟩
    rw [Overflows, herror, ← Codec.openRecord_flip_eq_overflow_iff (v := s.version), h]
    cases o <;> simp

def ofRunTwo : Recorded := { (default : Recorded) with origin := ⟨"i2", "p", 0, 0⟩ }

def flippedRecord : Disk := oneRecord "a" (Bytes.flip (Codec.writeRecord "0.1.0" ofRunTwo) 9 248)

theorem overflows_flippedRecord : (under "h" "0.1.0").Overflows "a" flippedRecord := by
  decide +kernel

theorem file_flippedRecord : flippedRecord.read ((under "h" "0.1.0").recordPath "a") =
    .ok (Bytes.flip (Codec.writeRecord "0.1.0" ofRunTwo) 9 248) :=
  eq_ok_of_toOption (by decide +kernel)

theorem payload_flippedRecord :
    Codec.payloadOf (Bytes.flip (Codec.writeRecord "0.1.0" ofRunTwo) 9 248) =
      Codec.writeState ofRunTwo := by
  decide +kernel

def announced : Bytes :=
  (Codec.frontOf (Bytes.flip (Codec.writeRecord "0.1.0" ofRunTwo) 9 248)).drop 5

theorem read_flippedRecord :
    (under "h" "1").load "a"
      (oneRecord "a" (Bytes.flip (Codec.writeRecord "1" oneInput) 0 8)) = none ∧
    (under "h" "0.1.0").Overflows "a" flippedRecord := by
  constructor
  · have hread : (oneRecord "a" (Bytes.flip (Codec.writeRecord "1" oneInput) 0 8)).read
        ((under "h" "1").recordPath "a") = .ok (Bytes.flip (Codec.writeRecord "1" oneInput) 0 8) :=
      eq_ok_of_toOption (by decide +kernel)
    rcases read_of_flip (s := under "h" "1") (by decide +kernel) (by decide) hread with
      ⟨h, -⟩ | ⟨-, hhash⟩
    · exact h
    · exact absurd hhash (by decide +kernel)
  · rcases read_of_flip (s := under "h" "0.1.0") (by decide +kernel) (by decide)
      file_flippedRecord with ⟨-, h⟩ | ⟨hpayload, -⟩
    · rw [h]
      -- part of the hash is taken for a length that no memory has
      obtain ⟨hfront, hlong⟩ :
          Codec.frontOf (Bytes.flip (Codec.writeRecord "0.1.0" ofRunTwo) 9 248) =
            Codec.recordMagic ++ ([1] ++ (announced.take 9 ++ announced.drop 9)) ∧
          (announced.drop 9).length < Bytes.toNat ((announced.take 9).drop 1) ∧
          (under "h" "0.1.0").memory < Bytes.toNat ((announced.take 9).drop 1) := by
        decide +kernel
      exact ⟨_, _, _, _, 1, _, hfront, rfl, .one 1 (by decide), by decide,
        .eight _ (by decide +kernel), hlong⟩
    · exact absurd payload_flippedRecord hpayload

/-- A record can be damaged in one byte so that it is not refused. -/
theorem not_refused_of_flip : ¬∀ (s : Store) (work : String) (d : Disk) (r : Recorded) (i : Nat)
    (mask : UInt8), i < (Codec.writeRecord s.version r).length → mask ≠ 0 →
    d.read (s.recordPath work) = .ok ((Codec.writeRecord s.version r).flip i mask) →
    s.read work d = .error .refused ∨
      Codec.payloadOf ((Codec.writeRecord s.version r).flip i mask) ≠ Codec.writeState r ∧
        Digest.ofBytes (Codec.payloadOf ((Codec.writeRecord s.version r).flip i mask)) =
          Digest.ofBytes (Codec.writeState r) := by
  intro h
  rcases h (under "h" "0.1.0") "a" _ ofRunTwo 9 248 (by decide +kernel) (by decide)
    file_flippedRecord with hrefused | ⟨hpayload, -⟩
  · have hoverflows := overflows_flippedRecord
    rw [Overflows, hrefused] at hoverflows
    cases hoverflows
  · exact absurd payload_flippedRecord hpayload

end Store

end UpToDate

import UpToDate.Proofs.History.Codec

namespace UpToDate

namespace Bytes

theorem toNat_lt {b : Bytes} {w : Nat} (hw : b.length = w) : toNat b < Nat.pow 256 w := by
  induction b generalizing w with
  | nil =>
    subst hw
    exact Nat.one_pos
  | cons x rest ih =>
    subst hw
    have hx := x.toNat_lt
    have hrest := ih rfl
    have hpow : Nat.pow 256 (rest.length + 1) = Nat.pow 256 rest.length * 256 := rfl
    rw [toNat, List.length_cons, hpow]
    omega

theorem ofNat_toNat (b : Bytes) : ofNat b.length (toNat b) = b := by
  induction b with
  | nil => rfl
  | cons x rest ih =>
    have hx := x.toNat_lt
    have hlow : UInt8.ofNat (x.toNat + 256 * toNat rest) = x := by
      apply UInt8.toNat_inj.1
      rw [UInt8.toNat_ofNat']
      omega
    have hhigh : (x.toNat + 256 * toNat rest) / 256 = toNat rest := by omega
    rw [List.length_cons, toNat, ofNat, hlow, hhigh, ih]

theorem eq_ofNat {b : Bytes} {w n : Nat} (hw : b.length = w) (hn : toNat b = n) :
    b = ofNat w n := by
  rw [← hw, ← hn, ofNat_toNat]

end Bytes

namespace Codec

variable {α : Type}

section Numbers

variable {n : Nat} {b : Bytes}

/-- The standard form of a number is the shortest that says it. -/
def NumberForm (n : Nat) (b : Bytes) : Prop := Says n b ∧ ∀ c, Says n c → b.length ≤ c.length

theorem Says.eq_writeNat (h : Says n b) :
    (writeNat n).length ≤ b.length ∧ (b.length ≤ (writeNat n).length → b = writeNat n) := by
  cases h with
  | one x hx =>
    rw [writeNat_one hx, UInt8.ofNat_toNat]
    exact ⟨Nat.le_refl _, fun _ ↦ rfl⟩
  | two b hb =>
    have hlt : Bytes.toNat b < 0x10000 := Bytes.toNat_lt hb
    by_cases h₁ : Bytes.toNat b ≤ 250
    · simp [writeNat_one h₁, hb]
    · rw [writeNat_two (by omega) hlt, ← Bytes.eq_ofNat hb rfl]
      exact ⟨Nat.le_refl _, fun _ ↦ rfl⟩
  | four b hb =>
    have hlt : Bytes.toNat b < 0x100000000 := Bytes.toNat_lt hb
    by_cases h₁ : Bytes.toNat b ≤ 250
    · simp [writeNat_one h₁, hb]
    · by_cases h₂ : Bytes.toNat b < 0x10000
      · simp [writeNat_two (by omega) h₂, hb]
      · rw [writeNat_four (by omega) hlt, ← Bytes.eq_ofNat hb rfl]
        exact ⟨Nat.le_refl _, fun _ ↦ rfl⟩
  | eight b hb =>
    by_cases h₁ : Bytes.toNat b ≤ 250
    · simp [writeNat_one h₁, hb]
    · by_cases h₂ : Bytes.toNat b < 0x10000
      · simp [writeNat_two (by omega) h₂, hb]
      · by_cases h₄ : Bytes.toNat b < 0x100000000
        · simp [writeNat_four (by omega) h₄, hb]
        · rw [writeNat_eight (by omega), ← Bytes.eq_ofNat hb rfl]
          exact ⟨Nat.le_refl _, fun _ ↦ rfl⟩

end Numbers

section Forms

inductive TextForm (s : String) : Bytes → Prop
  | intro {n : Bytes} : NumberForm s.utf8ByteSize n → TextForm s (n ++ Bytes.ofText s)

inductive DigestForm (d : Digest) : Bytes → Prop
  | intro : DigestForm d d.bytes

inductive EntriesForm (form : α → Bytes → Prop) : List (String × α) → Bytes → Prop
  | nil : EntriesForm form [] []
  | cons {e : String × α} {l : List (String × α)} {k v b : Bytes} : TextForm e.1 k → form e.2 v →
      EntriesForm form l b → EntriesForm form (e :: l) (k ++ v ++ b)

inductive MapForm (form : α → Bytes → Prop) (d : Dict String α) : Bytes → Prop
  | intro {n b : Bytes} : NumberForm d.size n → EntriesForm form d.entries b →
      MapForm form d (n ++ b)

inductive OriginForm (o : Origin) : Bytes → Prop
  | intro {i p e c : Bytes} : TextForm o.invocation i → TextForm o.producer p →
      NumberForm o.elapsedMs.toNat e → NumberForm o.createdMs.toNat c →
      OriginForm o (i ++ p ++ e ++ c)

inductive StateForm (r : Recorded) : Bytes → Prop
  | intro {v i o g : Bytes} : MapForm DigestForm r.values v →
      MapForm (MapForm DigestForm) r.inputs i → MapForm (MapForm DigestForm) r.outputs o →
      OriginForm r.origin g → StateForm r (v ++ i ++ o ++ g)

inductive HeaderForm (h : Header) : Bytes → Prop
  | intro {f v c : Bytes} : NumberForm h.format f → TextForm h.version v →
      DigestForm h.checksum c → HeaderForm h (h.magic ++ f ++ v ++ c)

end Forms

section Written

/-- What is written of a value that has a property is its one form. -/
def Standard (form : α → Bytes → Prop) (write : α → Bytes) (sized : α → Prop) : Prop :=
  ∀ a, sized a → ∀ b, form a b ↔ b = write a

variable {form : α → Bytes → Prop} {write : α → Bytes} {sized : α → Prop}

theorem standard_number : Standard NumberForm writeNat (· < wordLimit) := by
  intro n hn b
  constructor
  · rintro ⟨hform, hleast⟩
    exact hform.eq_writeNat.2 (hleast _ (says_writeNat hn))
  · rintro rfl
    exact ⟨says_writeNat hn, fun c hc ↦ hc.eq_writeNat.1⟩

theorem standard_text : Standard TextForm writeText SizedText := by
  intro s hs b
  constructor
  · rintro ⟨hn⟩
    rw [(standard_number _ hs _).1 hn, writeText]
  · rintro rfl
    exact .intro ((standard_number _ hs _).2 rfl)

theorem standard_digest : Standard DigestForm writeDigest fun _ ↦ True := by
  intro d _ b
  constructor
  · rintro ⟨⟩
    rfl
  · rintro rfl
    exact .intro

theorem standard_entries (h : Standard form write sized) :
    Standard (EntriesForm form) (writeEntries write) fun l ↦
      ∀ e ∈ l, SizedText e.1 ∧ sized e.2 := by
  intro l
  induction l with
  | nil =>
    intro _ b
    constructor
    · rintro ⟨⟩
      rfl
    · rintro rfl
      exact .nil
  | cons e rest ih =>
    intro hl b
    obtain ⟨⟨hkey, hvalue⟩, hrest⟩ := List.forall_mem_cons.1 hl
    rw [writeEntries, List.flatMap_cons, ← writeEntries]
    constructor
    · rintro (_ | ⟨hk, hv, hb⟩)
      rw [(standard_text _ hkey _).1 hk, (h _ hvalue _).1 hv, (ih hrest _).1 hb]
    · rintro rfl
      exact .cons ((standard_text _ hkey _).2 rfl) ((h _ hvalue _).2 rfl) ((ih hrest _).2 rfl)

theorem Standard.dict (h : Standard form write sized) :
    Standard (MapForm form) (writeMap write) (SizedMap sized) := by
  intro d hd b
  have hentries := standard_entries h d.entries hd.entries
  rw [writeMap_eq]
  constructor
  · rintro ⟨hn, hb⟩
    rw [(standard_number _ hd.size _).1 hn, (hentries _).1 hb]
  · rintro rfl
    exact .intro ((standard_number _ hd.size _).2 rfl) ((hentries _).2 rfl)

theorem standard_origin :
    Standard OriginForm writeOrigin fun o ↦ SizedText o.invocation ∧ SizedText o.producer := by
  rintro o ⟨hinvocation, hproducer⟩ b
  have hword (n : UInt64) (c : Bytes) : NumberForm n.toNat c ↔ c = writeNat n.toNat :=
    standard_number _ n.toNat_lt c
  rw [writeOrigin]
  constructor
  · rintro ⟨hi, hp, he, hc⟩
    rw [(standard_text _ hinvocation _).1 hi, (standard_text _ hproducer _).1 hp,
      (hword _ _).1 he, (hword _ _).1 hc]
  · rintro rfl
    exact .intro ((standard_text _ hinvocation _).2 rfl) ((standard_text _ hproducer _).2 rfl)
      ((hword _ _).2 rfl) ((hword _ _).2 rfl)

theorem standard_state : Standard StateForm writeState SizedState := by
  intro r hr b
  have hvalues := standard_digest.dict r.values hr.values
  have hinputs := standard_digest.dict.dict r.inputs hr.inputs
  have houtputs := standard_digest.dict.dict r.outputs hr.outputs
  have horigin := standard_origin r.origin ⟨hr.invocation, hr.producer⟩
  rw [writeState]
  constructor
  · rintro ⟨hv, hi, ho, hg⟩
    rw [(hvalues _).1 hv, (hinputs _).1 hi, (houtputs _).1 ho, (horigin _).1 hg,
      writeFingerprints, writeFingerprints]
  · rintro rfl
    exact .intro ((hvalues _).2 rfl) ((hinputs _).2 rfl) ((houtputs _).2 rfl) ((horigin _).2 rfl)

theorem standard_header : Standard HeaderForm writeHeader SizedHeader := by
  intro h hh b
  have hformat : h.format < wordLimit := Nat.lt_trans hh.format (by decide)
  rw [writeHeader]
  constructor
  · rintro ⟨hf, hv, hc⟩
    rw [(standard_number _ hformat _).1 hf, (standard_text _ hh.version _).1 hv,
      (standard_digest _ trivial _).1 hc]
  · rintro rfl
    exact .intro ((standard_number _ hformat _).2 rfl) ((standard_text _ hh.version _).2 rfl)
      ((standard_digest _ trivial _).2 rfl)

end Written

section RoundTrip

variable {r : Recorded} {h : Header}

/-- States and headers have one standard form each. It is what is written of them, and reading
takes exactly it off any input and gives back the state or the header. -/
theorem reads_standardForm (hr : SizedState r) (hh : SizedHeader h) :
    (Reads readState (writeState r) r ∧ ∀ b, StateForm r b ↔ b = writeState r) ∧
    (Reads readHeader (writeHeader h) h ∧ ∀ b, HeaderForm h b ↔ b = writeHeader h) :=
  ⟨⟨inverts_state r hr, standard_state r hr⟩, ⟨inverts_header h hh, standard_header h hh⟩⟩

def longNamed : Recorded where
  values := .ofList [(String.ofList (List.replicate 300 'n'), .directory)]
  inputs := .ofList [("src", .ofList [("a.c", .directory), ("b.c", .directory)]), ("tools", .empty)]
  outputs := .empty
  origin := ⟨"i", "a", 0x10000, 0x100000000⟩

theorem reads_longNamed :
    SizedState longNamed ∧ SizedHeader (headerOf "1" longNamed) ∧
    Reads readState (writeState longNamed) longNamed ∧
    Reads readHeader (writeHeader (headerOf "1" longNamed)) (headerOf "1" longNamed) ∧
    (writeState longNamed).take 4 = [1, 251, 0x2c, 1] := by
  have hstate : SizedState longNamed := .of_length (by decide +kernel)
  have hversion : SizedText "1" := by
    change "1".utf8ByteSize < wordLimit
    decide +kernel
  have hheader := sizedHeader_headerOf hversion longNamed
  obtain ⟨⟨hreads, -⟩, hreads', -⟩ := reads_standardForm hstate hheader
  exact ⟨hstate, hheader, hreads, hreads', by decide +kernel⟩

end RoundTrip

end Codec

end UpToDate

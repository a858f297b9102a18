import UpToDate.History.Store
import UpToDate.Proofs.Disk.Paths

namespace UpToDate.Store

open UpToDate.Path (IsStep)

variable {work work' : String} {tag : UInt64}

/-- The name of the file under which a record is drafted. -/
def draftName (work : String) (tag : UInt64) : String :=
  recordName work ++ "." ++ Bytes.hex (Bytes.ofNat 8 tag.toNat).reverse ++ ".tmp"

theorem plain_ne_slash (c : Char) : plain c ≠ '/' := by
  rw [plain]
  split
  · rintro rfl
    contradiction
  · decide

theorem exists_plain_of_mem {c : Char} (h : c ∈ (readable work).toList) : ∃ x, plain x = c := by
  rw [readable, String.toList_ofList, Text.strip] at h
  have hdrop := (List.dropWhile_sublist _).subset (List.mem_reverse.1 h)
  have hmem := (List.dropWhile_sublist _).subset (List.mem_reverse.1 hdrop)
  obtain ⟨x, -, hx⟩ := List.mem_map.1 hmem
  exact ⟨x, hx⟩

theorem noSlash_readable (work : String) : '/' ∉ (readable work).toList := by
  intro h
  obtain ⟨x, hx⟩ := exists_plain_of_mem h
  exact plain_ne_slash x hx

theorem exists_hexDigit_of_mem {c : Char} {b : Bytes} (h : c ∈ (Bytes.hex b).toList) :
    ∃ n < 16, Bytes.hexDigit n = c := by
  rw [Bytes.hex, String.toList_ofList] at h
  obtain ⟨x, -, hx⟩ := List.mem_flatMap.1 h
  have hlt := x.toNat_lt
  rcases List.mem_cons.1 hx with hx | hx
  · exact ⟨_, by omega, hx.symm⟩
  · exact ⟨_, by omega, (List.mem_singleton.1 hx).symm⟩

theorem length_hex (b : Bytes) : (Bytes.hex b).length = 2 * b.length := by
  rw [Bytes.hex, String.length_ofList, List.length_flatMap]
  simp [List.map_const', Nat.mul_comm]

theorem noSlash_hex (b : Bytes) : '/' ∉ (Bytes.hex b).toList := by
  have hall : ∀ n < 16, Bytes.hexDigit n ≠ '/' := by decide
  intro h
  obtain ⟨n, hn, hx⟩ := exists_hexDigit_of_mem h
  exact hall n hn hx

theorem isStep_append {a b : String} (ha : '/' ∉ a.toList) (hb : '/' ∉ b.toList)
    (hlen : 3 ≤ b.length) : IsStep (a ++ b) := by
  have hlong : 3 ≤ (a ++ b).length := by
    rw [String.length_append]
    omega
  refine ⟨?_, ?_, ?_, ?_⟩
  · intro h
    rw [h] at hlong
    exact absurd hlong (by decide)
  · intro h
    rw [h] at hlong
    exact absurd hlong (by decide)
  · intro h
    rw [h] at hlong
    exact absurd hlong (by decide)
  · rw [String.toList_append, List.mem_append]
    rintro (h | h)
    · exact ha h
    · exact hb h

theorem isStep_recordName (work : String) : IsStep (recordName work) := by
  refine isStep_append ?_ (by decide) (by decide)
  simp [noSlash_readable, noSlash_hex]

theorem isStep_draftName (work : String) (tag : UInt64) : IsStep (draftName work tag) := by
  refine isStep_append ?_ (by decide) (by decide)
  simp [(isStep_recordName work).noSlash, noSlash_hex]

theorem draftName_ne_recordName : draftName work tag ≠ recordName work' := by
  intro h
  have hlast := congrArg (fun name ↦ name.toList.reverse.head?) h
  simp [draftName, recordName] at hlast

theorem draftName_ne {tag' : UInt64} (h : recordName work ≠ recordName work') :
    draftName work tag ≠ draftName work' tag' := by
  have hlength (n : Nat) : (Bytes.hex (Bytes.ofNat 8 n).reverse).toList.length = 16 := by
    rw [String.length_toList, length_hex, List.length_reverse, Bytes.length_ofNat]
  intro he
  apply h
  have hlists := congrArg String.toList he
  simp only [draftName, String.toList_append, List.append_assoc] at hlists
  have hsame := (List.append_inj' hlists (by simp only [List.length_append, hlength])).1
  exact String.toList_injective hsame

theorem recordPath_eq (s : Store) (work : String) :
    s.recordPath work = Path.join s.directory (recordName work) :=
  rfl

theorem draftPath_eq (s : Store) (work : String) (tag : UInt64) :
    s.draftPath work tag = Path.join s.directory (draftName work tag) := by
  apply String.toList_injective
  rw [Path.toList_join (isStep_draftName work tag), draftPath, recordPath_eq, draftName]
  simp only [String.toList_append, Path.toList_join (isStep_recordName work)]
  split
  · rfl
  · split <;> simp

end UpToDate.Store

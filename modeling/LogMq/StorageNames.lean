import LogMq.BrokerOffsetFiles
import LogMq.StorageOverflow

/-! Numbers in the names of files. A segment and its index are named after the base offset, in twenty digits, and a
file of committed offsets after its topic and partition. What a name is read back as is exactly the number it
spells. -/

namespace LogMq

open Text

/-! ### Segments and their indexes -/

def indexPath (options : CommitLogOptions) (baseOffset : Int) : Path :=
  ⟨options.dataDir, String.leftpad 20 '0' (toString baseOffset) ++ ".index"⟩

/-- `path::stem`. -/
def Path.stem (path : Path) : Bytes := (splitExtension (text path.name)).1

/-- The decimal digits of a base offset, behind zeros up to a width of twenty. -/
def paddedDigits (n : Nat) : Bytes := List.replicate (20 - (decimal n).length) 48 ++ decimal n

theorem text_leftpad (n : Nat) : text (String.leftpad 20 '0' (toString (n : Int))) = paddedDigits n := by
  have hpadded : String.leftpad 20 '0' (toString (n : Int)) =
      String.ofList (List.leftpad 20 '0' (String.ofList (Nat.toDigits 10 n)).toList) := rfl
  rw [hpadded, String.toList_ofList, text_ofList, List.leftpad, List.map_append, List.map_replicate, paddedDigits,
    decimal, List.length_map]
  · rfl
  · intro c hc
    rcases List.mem_append.mp hc with hzero | hdigit
    · rw [List.eq_of_mem_replicate hzero]
      rfl
    · exact Nat.isDigit_of_mem_toDigits (by decide) (by decide) hdigit

theorem length_paddedDigits (n : Nat) : 20 ≤ (paddedDigits n).length := by
  rw [paddedDigits, List.length_append, List.length_replicate]
  omega

theorem stem_paddedDigits {n : Nat} {name : String} {extension : Bytes} (hextension : 46 ∉ extension)
    (hname : text name = paddedDigits n ++ 46 :: extension) (directory : String) :
    Path.stem ⟨directory, name⟩ = paddedDigits n := by
  have hlong := length_paddedDigits n
  have hsome : paddedDigits n ≠ [] := List.ne_nil_of_length_pos (by omega)
  rw [Path.stem, hname, splitExtension_of_marked hextension hsome (by omega)]

theorem stem_segmentPath (options : CommitLogOptions) (n : Nat) : (segmentPath options n).stem = paddedDigits n :=
  @stem_paddedDigits n _ (text "log") (by decide +kernel) (by rw [text_append, text_leftpad]; rfl) options.dataDir

theorem stem_indexPath (options : CommitLogOptions) (n : Nat) : (indexPath options n).stem = paddedDigits n :=
  @stem_paddedDigits n _ (text "index") (by decide +kernel) (by rw [text_append, text_leftpad]; rfl) options.dataDir

theorem parseBaseOffset_paddedDigits {n : Nat} (h : (n : Int) ≤ maxOffset) :
    parseBaseOffset (paddedDigits n) = some (n : Int) :=
  parseBaseOffset_eq_some.mpr ((spells_decimal h).zeros _)

/-- The name of a segment is read back as its base offset. -/
theorem parseBaseOffset_segmentPath (options : CommitLogOptions) {base : Int} (hnonneg : 0 ≤ base)
    (hle : base ≤ maxOffset) : parseBaseOffset (segmentPath options base).stem = some base := by
  obtain ⟨n, rfl⟩ := Int.eq_ofNat_of_zero_le hnonneg
  rw [stem_segmentPath, parseBaseOffset_paddedDigits hle]

/-- The name of an index spells the base offset of its segment. -/
theorem parseBaseOffset_indexPath (options : CommitLogOptions) {base : Int} (hnonneg : 0 ≤ base)
    (hle : base ≤ maxOffset) : parseBaseOffset (indexPath options base).stem = some base := by
  obtain ⟨n, rfl⟩ := Int.eq_ofNat_of_zero_le hnonneg
  rw [stem_indexPath, parseBaseOffset_paddedDigits hle]

/-! ### Files of committed offsets -/

/-- What `ParseOffsetFilename` computes: the bound, the product and the sum of each digit. -/
def partitionSums : Int → Bytes → List Int
  | _, [] => []
  | parsed, ch :: rest =>
      if ch < 48 ∨ 57 < ch then []
      else
        let digit : Int := ch.toNat - 48
        if parsed > (maxInt32 - digit) / 10 then [maxInt32 - digit]
        else (maxInt32 - digit) :: (parsed * 10) :: (parsed * 10 + digit) :: partitionSums (parsed * 10 + digit) rest

theorem partitionSums_eq (parsed : Int) (digits : Bytes) :
    partitionSums parsed digits = boundedSums maxInt32 digits parsed := by
  induction digits generalizing parsed with
  | nil => rfl
  | cons ch rest ih => simp only [partitionSums, boundedSums, ih]

theorem partitionSums_fit (digits : Bytes) : ∀ sum ∈ partitionSums 0 digits, IsInt32 sum := by
  intro sum hsum
  rw [partitionSums_eq] at hsum
  have hbounds := boundedSums_le (by decide) (le_refl 0) sum hsum
  unfold maxInt32 at hbounds
  unfold IsInt32
  omega

/-- **`ParseOffsetFilename`** accepts a topic and digits that spell a value of type `PartitionId`. -/
theorem parseOffsetFilename_eq_some {name topic : Bytes} {partitionId : Int} :
    parseOffsetFilename name = some (topic, partitionId) ↔
      ∃ partition, splitExtension name = (topic ++ 45 :: partition, text ".offset") ∧ topic ≠ [] ∧
        Spells maxInt32 partition partitionId := by
  unfold parseOffsetFilename
  by_cases hextension : (splitExtension name).2 = text ".offset"
  · rw [if_neg (not_not.mpr hextension)]
    constructor
    · intro h
      cases hsplit : splitLast 45 (splitExtension name).1 with
      | none =>
          rw [hsplit] at h
          exact nomatch h
      | some parts =>
          obtain ⟨front, partition⟩ := parts
          rw [hsplit] at h
          dsimp only at h
          split_ifs at h with hempty
          obtain ⟨hfront, hpartition⟩ := not_or.mp hempty
          obtain ⟨parsed, hparsed, hpair⟩ := Option.map_eq_some_iff.mp h
          obtain ⟨rfl, rfl⟩ := Prod.mk.inj hpair
          rw [parsePartition_eq, readBounded_iff_spells (by decide) hpartition] at hparsed
          exact ⟨partition, Prod.ext (splitLast_eq_some.mp hsplit).1 hextension, hfront, hparsed⟩
    · rintro ⟨partition, hsplit, htopic, hspells⟩
      have hdash : 45 ∉ partition := fun hmem => nomatch hspells.isDigit 45 hmem
      rw [hsplit, splitLast_append hdash]
      dsimp only
      rw [if_neg (not_or.mpr ⟨htopic, hspells.nonempty⟩), parsePartition_eq,
        (readBounded_iff_spells (by decide) hspells.nonempty).mpr hspells]
      rfl
  · rw [if_pos hextension]
    exact ⟨nofun, fun ⟨_, hsplit, _⟩ => absurd (congrArg Prod.snd hsplit) hextension⟩

/-! ### Both together -/

/-- **Names are exact.** The stem of a segment or an index is accepted exactly if it spells an offset, the name of a
file of committed offsets exactly if it ends in digits that spell a partition, and neither overflows. The name that is
given to a base offset is read back as this offset and given to no other. -/
theorem names_exact (options : CommitLogOptions) :
    (∀ stem base, parseBaseOffset stem = some base ↔ Spells maxOffset stem base) ∧
    (∀ stem, ∀ sum ∈ parseSums stem 0, IsInt64 sum) ∧
    (∀ base, 0 ≤ base → base ≤ maxOffset → parseBaseOffset (segmentPath options base).stem = some base) ∧
    (∀ base other, 0 ≤ base → base ≤ maxOffset → 0 ≤ other → other ≤ maxOffset → base ≠ other →
      (segmentPath options base).name ≠ (segmentPath options other).name ∧
        (indexPath options base).name ≠ (indexPath options other).name) ∧
    (∀ name topic partitionId, parseOffsetFilename name = some (topic, partitionId) ↔
      ∃ partition, splitExtension name = (topic ++ 45 :: partition, text ".offset") ∧ topic ≠ [] ∧
        Spells maxInt32 partition partitionId) ∧
    (∀ partition, ∀ sum ∈ partitionSums 0 partition, IsInt32 sum) := by
  refine ⟨fun stem base => parseBaseOffset_eq_some, parseSums_fit,
    fun base hnonneg hle => parseBaseOffset_segmentPath options hnonneg hle, ?_,
    fun name topic partitionId => parseOffsetFilename_eq_some, partitionSums_fit⟩
  intro base other hnonneg hle hnonneg' hle' hne
  constructor
  · intro hsame
    have hread := parseBaseOffset_segmentPath options hnonneg hle
    rw [Path.stem, hsame, ← Path.stem, parseBaseOffset_segmentPath options hnonneg' hle'] at hread
    exact hne (Option.some.inj hread).symm
  · intro hsame
    have hread := parseBaseOffset_indexPath options hnonneg hle
    rw [Path.stem, hsame, ← Path.stem, parseBaseOffset_indexPath options hnonneg' hle'] at hread
    exact hne (Option.some.inj hread).symm

/-- The largest offset and zero. -/
theorem names_exact_value :
    parseBaseOffset (segmentPath { dataDir := "log" } (2 ^ 63 - 1)).stem = some (2 ^ 63 - 1) ∧
      (segmentPath { dataDir := "log" } (2 ^ 63 - 1)).name ≠ (segmentPath { dataDir := "log" } 0).name ∧
      (indexPath { dataDir := "log" } (2 ^ 63 - 1)).name ≠ (indexPath { dataDir := "log" } 0).name := by
  obtain ⟨-, -, hread, hnames, -, -⟩ := names_exact { dataDir := "log" }
  exact ⟨hread _ (by decide) (by decide), hnames _ _ (by decide) (by decide) (by decide) (by decide) (by decide)⟩

end LogMq

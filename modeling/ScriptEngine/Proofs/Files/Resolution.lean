import Mathlib.Data.List.Basic
import Mathlib.Data.Prod.Lex
import ScriptEngine.Files.Module

/-!
# Which file an import resolves to

A place is a directory to start from and a way to go on from there, and places have a rank: the
directories come first, then the ways. A specifier gives some places a path. Resolving it finds the
file with the least rank, and leaving out a path that was listed before in another spelling does not
change that, as long as a spelling does not decide what is a file.
-/
namespace ScriptEngine.Module

/-! Paths that are listed once -/

/-- Puts a path behind others unless one of them is the same. -/
def keep (kept : List Path) (p : Path) : List Path := if kept.any p.same then kept else kept ++ [p]

theorem dedup_eq (paths : List Path) : dedup paths = paths.foldl keep [] := rfl

theorem same_iff {p q : Path} : p.same q ↔ p.parts = q.parts := beq_iff_eq

theorem pairwise_keep {kept : List Path} (h : kept.Pairwise fun p q => p.same q = false)
    (p : Path) : (keep kept p).Pairwise fun p q => p.same q = false := by
  unfold keep
  split
  next => exact h
  next hnew =>
    refine List.pairwise_append.2 ⟨h, List.pairwise_singleton _ _, fun q hq p' hp => ?_⟩
    obtain rfl := List.mem_singleton.1 hp
    refine Bool.eq_false_iff.2 fun hsame => hnew (List.any_eq_true.2 ⟨q, hq, ?_⟩)
    exact same_iff.2 (same_iff.1 hsame).symm

theorem dedup_pairwise (paths : List Path) :
    (dedup paths).Pairwise fun p q => p.same q = false := by
  rw [dedup_eq]
  exact List.foldlRecOn paths keep List.Pairwise.nil fun _ h p _ => pairwise_keep h p

section

variable {isFile : Path → Bool} (hparts : ∀ p q : Path, p.same q → isFile p = isFile q)
include hparts

/-- A path that is left out would not have been found first. -/
theorem find?_keep (kept rest : List Path) (p : Path) :
    (keep kept p ++ rest).find? isFile = (kept ++ p :: rest).find? isFile := by
  unfold keep
  split
  next hsame =>
    obtain ⟨q, hq, hpq⟩ := List.any_eq_true.1 hsame
    rw [List.find?_append, List.find?_append, List.find?_cons]
    cases hp : isFile p with
    | false => rfl
    | true =>
      have hfound : (kept.find? isFile).isSome :=
        List.find?_isSome.2 ⟨q, hq, hparts p q hpq ▸ hp⟩
      obtain ⟨x, hx⟩ := Option.isSome_iff_exists.1 hfound
      simp [hx]
  next => rw [List.append_assoc, List.singleton_append]

theorem find?_dedup (paths : List Path) : (dedup paths).find? isFile = paths.find? isFile := by
  have hkept (kept : List Path) :
      (paths.foldl keep kept).find? isFile = (kept ++ paths).find? isFile := by
    induction paths generalizing kept with
    | nil => rw [List.foldl_nil, List.append_nil]
    | cons p rest ih => rw [List.foldl_cons, ih, find?_keep hparts]
  exact hkept []

end

/-! Places and their rank -/

/-- Where the search starts: in the directory of the importing file, in the current one, in a search
path, or above the directory of the importing file. -/
inductive Root where
  | importer
  | current
  | search (i : Nat)
  | above

namespace Root

/-- The directories in their order, search paths by their index. -/
def rank : Root → ℕ ×ₗ ℕ
  | importer => toLex (1, 0)
  | current => toLex (2, 0)
  | search i => toLex (3, i)
  | above => toLex (4, 0)

def directory? (searchPaths : List Path) (importing : Option Path) : Root → Option Path
  | importer => importing
  | current => some ⟨""⟩
  | search i => searchPaths[i]?
  | above => importing.bind Path.parent?

/-- A directory comes behind an absolute specifier. -/
theorem rank_pos (root : Root) : toLex (0, 0) < root.rank := by
  cases root <;> exact Prod.Lex.toLex_lt_toLex.2 (.inl (by simp))

/-- All directories in the order of their rank, for this many search paths. -/
def all (n : ℕ) : List Root := [importer, current] ++ (List.range n).map search ++ [above]

theorem all_sorted (n : ℕ) : (all n).Pairwise fun a b => a.rank < b.rank := by
  have hsearch : ((List.range n).map search).Pairwise fun a b => a.rank < b.rank := by
    refine List.pairwise_map.2 (List.pairwise_lt_range.imp fun {i j} hlt => ?_)
    exact Prod.Lex.toLex_lt_toLex (x := (3, i)) (y := (3, j)) |>.2 (.inr ⟨rfl, hlt⟩)
  simp only [all, List.pairwise_append, hsearch]
  simp [rank, Prod.Lex.toLex_lt_toLex]

theorem mem_all {searchPaths : List Path} {importing : Option Path} {root : Root} {p : Path}
    (h : root.directory? searchPaths importing = some p) : root ∈ all searchPaths.length := by
  cases root with
  | search i =>
    obtain ⟨hi, -⟩ := List.getElem?_eq_some_iff.1 h
    simp [all, hi]
  | _ => simp [all]

theorem filterMap_search (searchPaths : List Path) (importing : Option Path) :
    ((List.range searchPaths.length).map search).filterMap (directory? searchPaths importing) =
      searchPaths := by
  have hindex (paths : List Path) :
      (List.range paths.length).filterMap (fun i => paths[i]?) = paths := by
    induction paths with
    | nil => rfl
    | cons p rest ih =>
      rw [List.length_cons, List.range_succ_eq_map, List.filterMap_cons, List.filterMap_map]
      exact congrArg (p :: ·) ih
  rw [List.filterMap_map]
  exact hindex searchPaths

theorem roots_eq (searchPaths : List Path) (importing : Option Path) :
    roots searchPaths importing =
      (all searchPaths.length).filterMap (directory? searchPaths importing) := by
  rw [all, List.filterMap_append, List.filterMap_append, filterMap_search, roots]
  cases importing with
  | none => rfl
  | some p => cases h : p.parent? <;> simp [directory?, h]

end Root

/-- How the search goes on in a directory; the name may be extended. -/
inductive Spot where
  | plain (extended : Bool)
  | package (extended : Bool)
  | entry
  | standard (extended : Bool)

/-- The name that a specifier stands for; a name with an extension is not extended. -/
def name? (spec : Path) (extended : Bool) : Option Path :=
  if !extended then some spec
  else if spec.extension?.isNone then some (spec.addExtension extension)
  else none

namespace Spot

def rank : Spot → ℕ
  | plain extended => 0 + extended.toNat
  | package extended => 2 + extended.toNat
  | entry => 4
  | standard extended => 5 + extended.toNat

def path? (spec root : Path) : Spot → Option Path
  | plain extended => (name? spec extended).map root.join
  | package extended => (name? spec extended).map (root.join packageDirectory).join
  | entry => some (((root.join packageDirectory).join spec).join packageEntry)
  | standard extended => (name? spec extended).map (root.join standardDirectory).join

/-- All ways in the order of their rank. -/
def all : List Spot :=
  [plain false, plain true, package false, package true, entry, standard false, standard true]

theorem all_sorted : all.Pairwise fun a b => a.rank < b.rank := by
  decide

theorem mem_all (spot : Spot) : spot ∈ all := by
  rcases spot with (_ | _) | (_ | _) | _ | (_ | _) <;> simp [all]

theorem placesIn_eq (spec root : Path) :
    placesIn spec root = all.filterMap (path? spec root) := by
  cases h : spec.extension? <;> simp [placesIn, names, all, path?, name?, h]

end Spot

/-- A place where a module may be. An absolute specifier is its own place. -/
inductive Place where
  | absolute (extended : Bool)
  | within (root : Root) (spot : Spot)

namespace Place

/-- The directory counts before the way on from it. -/
def rank : Place → (ℕ ×ₗ ℕ) ×ₗ ℕ
  | absolute extended => toLex (toLex (0, 0), extended.toNat)
  | within root spot => toLex (root.rank, spot.rank)

/-- The path that a specifier gives a place, if any. -/
def path? (searchPaths : List Path) (spec : Path) (importing : Option Path) :
    Place → Option Path
  | absolute extended => if spec.isAbsolute then name? spec extended else none
  | within root spot =>
    if spec.isAbsolute then none
    else (root.directory? searchPaths importing).bind (spot.path? spec)

/-- All places in the order of their rank, for this many search paths. -/
def all (n : ℕ) : List Place :=
  [absolute false, absolute true] ++ (Root.all n).flatMap fun root => Spot.all.map (within root)

theorem rank_lt_iff {a b : ℕ ×ₗ ℕ} {i j : ℕ} :
    toLex (a, i) < toLex (b, j) ↔ a < b ∨ a = b ∧ i < j := Prod.Lex.toLex_lt_toLex

theorem all_sorted (n : ℕ) : (all n).Pairwise fun a b => a.rank < b.rank := by
  refine List.pairwise_append.2 ⟨by decide, List.pairwise_flatMap.2 ⟨fun root _ => ?_, ?_⟩, ?_⟩
  · refine List.pairwise_map.2 (Spot.all_sorted.imp fun hlt => ?_)
    exact rank_lt_iff.2 (.inr ⟨rfl, hlt⟩)
  · refine (Root.all_sorted n).imp fun hlt a ha b hb => ?_
    obtain ⟨_, -, rfl⟩ := List.mem_map.1 ha
    obtain ⟨_, -, rfl⟩ := List.mem_map.1 hb
    exact rank_lt_iff.2 (.inl hlt)
  · intro a ha b hb
    obtain ⟨root, -, hb⟩ := List.mem_flatMap.1 hb
    obtain ⟨spot, -, rfl⟩ := List.mem_map.1 hb
    obtain ⟨extended, rfl⟩ : ∃ extended, a = absolute extended := by simpa using ha
    exact rank_lt_iff.2 (.inl root.rank_pos)

theorem mem_all {searchPaths : List Path} {spec : Path} {importing : Option Path} {place : Place}
    {p : Path} (h : place.path? searchPaths spec importing = some p) :
    place ∈ all searchPaths.length := by
  cases place with
  | absolute extended => cases extended <;> simp [all]
  | within root spot =>
    rw [path?] at h
    split at h
    next => cases h
    next =>
      obtain ⟨directory, hdirectory, -⟩ := Option.bind_eq_some_iff.1 h
      refine List.mem_append_right _ (List.mem_flatMap.2 ⟨root, Root.mem_all hdirectory, ?_⟩)
      exact List.mem_map_of_mem (Spot.mem_all spot)

theorem paths_within (searchPaths : List Path) {spec : Path} (importing : Option Path)
    (hspec : spec.isAbsolute = false) (root : Root) :
    (Spot.all.map (within root)).filterMap (path? searchPaths spec importing) =
      (root.directory? searchPaths importing).toList.flatMap (placesIn spec) := by
  have hpath (spot : Spot) : path? searchPaths spec importing (within root spot) =
      (root.directory? searchPaths importing).bind (spot.path? spec) := if_neg (by simp [hspec])
  rw [List.filterMap_map]
  simp only [Function.comp_def, hpath]
  cases root.directory? searchPaths importing with
  | none => simp
  | some directory => simp [Spot.placesIn_eq]

theorem places_eq (searchPaths : List Path) (spec : Path) (importing : Option Path) :
    places searchPaths spec importing =
      (all searchPaths.length).filterMap (path? searchPaths spec importing) := by
  rw [all, List.filterMap_append]
  cases hspec : spec.isAbsolute with
  | true =>
    have hwithin : ((Root.all searchPaths.length).flatMap fun root =>
        Spot.all.map (within root)).filterMap (path? searchPaths spec importing) = [] := by
      refine List.filterMap_eq_nil_iff.2 fun place hplace => ?_
      obtain ⟨root, -, hplace⟩ := List.mem_flatMap.1 hplace
      obtain ⟨spot, -, rfl⟩ := List.mem_map.1 hplace
      exact if_pos hspec
    rw [places, if_pos hspec, hwithin, names]
    cases h : spec.extension? <;> simp [path?, name?, hspec, h]
  | false =>
    have habsolute : [absolute false, absolute true].filterMap
        (path? searchPaths spec importing) = [] := by
      simp [path?, hspec]
    rw [places, if_neg (by simp [hspec]), habsolute, List.nil_append, Root.roots_eq,
      List.filterMap_flatMap, List.filterMap_eq_flatMap_toList, List.flatMap_assoc]
    exact List.flatMap_congr fun root _ => (paths_within searchPaths importing hspec root).symm

/-- A search through the paths of places in the order of their rank finds the least place whose path
it looks for. -/
theorem find?_eq_some_iff {places : List Place}
    (hsorted : places.Pairwise fun a b => a.rank < b.rank)
    {path : Place → Option Path} {isFile : Path → Bool} {p : Path} :
    (places.filterMap path).find? isFile = some p ↔
      ∃ place ∈ places, path place = some p ∧ isFile p ∧
        ∀ other ∈ places, ∀ q, path other = some q → isFile q → place.rank ≤ other.rank := by
  rw [List.find?_filterMap, Option.bind_eq_some_iff]
  constructor
  · rintro ⟨place, hfind, hpath⟩
    obtain ⟨hfile, before, behind, rfl, hbefore⟩ := List.find?_eq_some_iff_append.1 hfind
    rw [hpath, Option.any_some] at hfile
    refine ⟨place, by simp, hpath, hfile, fun other hother q hq hisFile => ?_⟩
    rcases List.mem_append.1 hother with hother | hother
    · simpa [hq, hisFile] using hbefore other hother
    · rcases List.mem_cons.1 hother with rfl | hother
      · exact le_rfl
      · exact ((List.pairwise_cons.1 (List.pairwise_append.1 hsorted).2.1).1 other hother).le
  · rintro ⟨place, hmem, hpath, hfile, hleast⟩
    obtain ⟨before, behind, rfl⟩ := List.append_of_mem hmem
    refine ⟨place, List.find?_eq_some_iff_append.2 ⟨?_, before, behind, rfl, ?_⟩, hpath⟩
    · rw [hpath, Option.any_some, hfile]
    · intro other hother
      have hlt := (List.pairwise_append.1 hsorted).2.2 other hother place List.mem_cons_self
      cases hq : path other with
      | none => rfl
      | some q =>
        rw [Option.any_some, Bool.not_eq_true', Bool.eq_false_iff]
        exact fun hisFile =>
          (hleast other (List.mem_append_left _ hother) q hq hisFile).not_gt hlt

end Place

/-- The first candidate that is a file is the first place that has one. -/
theorem find?_candidates {isFile : Path → Bool}
    (hparts : ∀ p q : Path, p.same q → isFile p = isFile q) (searchPaths : List Path)
    (spec : String) (importing : Option Path) :
    (candidates searchPaths spec importing).find? isFile =
      (places searchPaths ⟨spec⟩ importing).find? isFile := by
  unfold candidates
  extract_lets spec
  split
  next => rfl
  next => exact find?_dedup hparts _

/-- In whatever spellings directories are given: no two candidates for a relative specifier are the
same path. If a spelling does not decide what is a file, resolving a specifier gives the path of the
place of least rank whose path is a file; it fails exactly if there is no such place; and leaving
out the paths that were listed before makes no difference. -/
theorem resolve_takes_first {isFile : Path → Bool}
    (hparts : ∀ p q : Path, p.same q → isFile p = isFile q) (searchPaths : List Path)
    (spec : String) (importing : Option Path) :
    ((⟨spec⟩ : Path).isAbsolute = false →
      (candidates searchPaths spec importing).Pairwise fun p q => p.same q = false) ∧
    (∀ p, resolve isFile searchPaths spec importing = .ok p ↔
      ∃ place : Place, place.path? searchPaths ⟨spec⟩ importing = some p ∧ isFile p ∧
        ∀ (other : Place) (q : Path), other.path? searchPaths ⟨spec⟩ importing = some q →
          isFile q → place.rank ≤ other.rank) ∧
    (∀ e, resolve isFile searchPaths spec importing = .error e ↔ e = .notFound spec ∧
      ∀ (place : Place) (p : Path), place.path? searchPaths ⟨spec⟩ importing = some p →
        isFile p = false) ∧
    (candidates searchPaths spec importing).find? isFile =
      (places searchPaths ⟨spec⟩ importing).find? isFile := by
  have hfind := find?_candidates hparts searchPaths spec importing
  refine ⟨fun hspec => ?_, fun p => ?_, fun e => ?_, hfind⟩
  · unfold candidates
    rw [if_neg (by simp [hspec])]
    exact dedup_pairwise _
  · have hok : resolve isFile searchPaths spec importing = .ok p ↔
        (places searchPaths ⟨spec⟩ importing).find? isFile = some p := by
      rw [resolve, hfind]
      cases (places searchPaths ⟨spec⟩ importing).find? isFile <;> simp
    rw [hok, Place.places_eq, Place.find?_eq_some_iff (Place.all_sorted _)]
    constructor
    · rintro ⟨place, -, hpath, hfile, hleast⟩
      exact ⟨place, hpath, hfile, fun other q hq => hleast other (Place.mem_all hq) q hq⟩
    · rintro ⟨place, hpath, hfile, hleast⟩
      exact ⟨place, Place.mem_all hpath, hpath, hfile, fun other _ => hleast other⟩
  · have herror : resolve isFile searchPaths spec importing = .error e ↔ e = .notFound spec ∧
        (places searchPaths ⟨spec⟩ importing).find? isFile = none := by
      rw [resolve, hfind]
      cases (places searchPaths ⟨spec⟩ importing).find? isFile <;> simp [eq_comm]
    rw [herror, Place.places_eq, List.find?_eq_none]
    refine and_congr_right fun _ => ⟨fun hnone place p hp => ?_, fun hnone p hp => ?_⟩
    · exact Bool.eq_false_iff.2
        (hnone p (List.mem_filterMap.2 ⟨place, Place.mem_all hp, hp⟩))
    · obtain ⟨place, -, hp⟩ := List.mem_filterMap.1 hp
      simp [hnone place p hp]

/-- In one directory, a package and a standard module of one name. -/
def packaged (p : Path) : Bool := p.same ⟨"/o/fsk_modules/u/index.fsk"⟩ || p.same ⟨"/o/std/u.fsk"⟩

theorem packaged_parts (p q : Path) (h : p.same q) : packaged p = packaged q := by
  simp only [packaged, Path.same, same_iff.1 h]

/-- The directory is given twice, and the package is found through its first spelling. -/
theorem packaged_resolves :
    resolve packaged [⟨"/o/"⟩, ⟨"/o"⟩] "u" none = .ok ⟨"/o/fsk_modules/u/index.fsk"⟩ := by
  rw [resolve, find?_candidates packaged_parts]
  rfl

theorem packaged_takes_first :
    (∀ p q : Path, p.same q → packaged p = packaged q) ∧
    ∃ place : Place, place.path? [⟨"/o/"⟩, ⟨"/o"⟩] ⟨"u"⟩ none =
        some ⟨"/o/fsk_modules/u/index.fsk"⟩ ∧ packaged ⟨"/o/fsk_modules/u/index.fsk"⟩ ∧
      ∀ (other : Place) (q : Path), other.path? [⟨"/o/"⟩, ⟨"/o"⟩] ⟨"u"⟩ none = some q →
        packaged q → place.rank ≤ other.rank := by
  obtain ⟨-, hok, -, -⟩ := resolve_takes_first packaged_parts [⟨"/o/"⟩, ⟨"/o"⟩] "u" none
  exact ⟨packaged_parts, (hok _).1 packaged_resolves⟩

end ScriptEngine.Module

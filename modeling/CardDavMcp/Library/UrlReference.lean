import CardDavMcp.Library.Utf8Text

namespace CardDavMcp.Library.UrlReference

open Utf8Text

def isControlOrSpace (c : Char) : Bool := c.toNat ≤ 0x20

/-- A reference without the characters that a parser of URLs ignores. -/
def stripped (l : Text) : Text :=
  ((l.dropWhile isControlOrSpace).rdropWhile isControlOrSpace).filter
    fun c => c ≠ '\t' ∧ c ≠ '\n' ∧ c ≠ '\r'

def isSchemeChar (c : Char) : Bool := c.isAlphanum || c = '+' || c = '-' || c = '.'

/-- The scheme of a reference, if it has one, and what follows the colon. -/
def schemeOf (t : Text) : Option (Text × Text) :=
  match splitOnce ':' t with
  | some (c :: scheme, rest) =>
    if c.isAlpha && scheme.all isSchemeChar then some ((c :: scheme).map Char.toLower, rest)
    else none
  | _ => none

def isSlash (c : Char) : Bool := c = '/' || c = '\\'

/-- What a reference says relative to a URL with a scheme. There is nothing if
it is absolute. -/
def relativePart (scheme l : Text) : Option Text :=
  match schemeOf (stripped l) with
  | none => some (stripped l)
  | some (s, rest) =>
    if s = scheme ∧ (rest.takeWhile isSlash).length < 2 then some rest else none

/-- A reference that names a host of its own. -/
def OwnHost (scheme l : Text) : Bool :=
  (relativePart scheme l).all fun r => 2 ≤ (r.takeWhile isSlash).length

def pathAndQuery (r : Text) : Text × Option Text :=
  let r := r.takeWhile (· ≠ '#')
  match splitOnce '?' r with
  | some (path, query) => (path, some query)
  | none => (r, none)

inductive Dots
  | here | up
deriving DecidableEq, Repr

/-- A text with the escapes of dots undone. -/
def undot : Text → Text
  | '%' :: '2' :: 'e' :: s => '.' :: undot s
  | '%' :: '2' :: 'E' :: s => '.' :: undot s
  | c :: s => c :: undot s
  | [] => []

def dotsOf (segment : Text) : Option Dots :=
  if undot segment = ['.'] then some .here
  else if undot segment = ['.', '.'] then some .up
  else none

/-- The segments of the path that a URL has. -/
def segmentsOf (path : Text) : List Text := (path.splitOn '/').drop 1

def directory (path : Text) : List Text := (segmentsOf path).dropLast

def splitSegments (p : Text) : List Text := (p.map fun c => if c = '\\' then '/' else c).splitOn '/'

/-- After dots at its end, a path ends in a slash. -/
def closing (segments : List Text) : List Text := if segments = [] then [[]] else []

section Walk

variable (kept : Text → Bool)

/-- The path one segment up. Two dots do not leave a segment that is kept. -/
def up (path : List Text) : List Text := if path.getLast?.any kept then path else path.dropLast

/-- The path that one gets to by the segments of a reference. -/
def walk : List Text → List Text → List Text
  | path, [] => path
  | path, segment :: segments =>
    match dotsOf segment with
    | some .up => walk (up kept path ++ closing segments) segments
    | some .here => walk (path ++ closing segments) segments
    | none => walk (path ++ [segment]) segments

/-- The path and the query of what a reference names relative to a URL. -/
def target (path : Text) (query : Option Text) (r : Text) : List Text × Option Text :=
  match pathAndQuery r with
  | ([], q) => (segmentsOf path, q <|> query)
  | (p, q) => (walk kept (directory path) (splitSegments p), q)

/-- The path and the query of what a reference without a host names relative to
a URL. One that begins with a slash does not depend on the path. -/
def reached (path : Text) (query : Option Text) (r : Text) : List Text × Option Text :=
  if r.head?.any isSlash then
    (walk kept [] (splitSegments (pathAndQuery (r.drop 1)).1), (pathAndQuery (r.drop 1)).2)
  else target kept path query r

/-- How many segments of the path are climbed, and what is added below. -/
def climb : Nat × List Text → List Text → Nat × List Text
  | p, [] => p
  | (k, added), segment :: segments =>
    match dotsOf segment with
    | some .up =>
      if added = [] then climb (k + 1, closing segments) segments
      else climb (k, up kept added ++ closing segments) segments
    | some .here => climb (k, added ++ closing segments) segments
    | none => climb (k, added ++ [segment]) segments

/-- What is left of a path after a climb. -/
def above (path : List Text) : Nat → List Text
  | 0 => path
  | k + 1 => up kept (above path k)

variable {kept}

theorem up_isPrefix (path : List Text) : up kept path <+: path := by
  rw [up]
  split_ifs
  · exact List.prefix_rfl
  · exact List.dropLast_prefix path

theorem up_append (path : List Text) {added : List Text} (h : added ≠ []) :
    up kept (path ++ added) = path ++ up kept added := by
  rw [up, up, List.getLast?_append_of_ne_nil path h, List.dropLast_append_of_ne_nil h]
  split_ifs <;> rfl

theorem above_isPrefix (path : List Text) (k : Nat) : above kept path k <+: path := by
  induction k with
  | zero => exact List.prefix_rfl
  | succ k ih => exact (up_isPrefix _).trans ih

theorem walk_above (path segments : List Text) (p : Nat × List Text) :
    walk kept (above kept path p.1 ++ p.2) segments =
      above kept path (climb kept p segments).1 ++ (climb kept p segments).2 := by
  induction segments generalizing p with
  | nil => rfl
  | cons segment segments ih =>
    obtain ⟨k, added⟩ := p
    rw [walk, climb]
    cases dotsOf segment with
    | none =>
      dsimp only
      rw [← ih, List.append_assoc]
    | some dots =>
      cases dots with
      | here =>
        dsimp only
        rw [← ih, List.append_assoc]
      | up =>
        dsimp only
        split_ifs with hadded
        · rw [← ih, hadded, List.append_nil, above]
        · rw [← ih, up_append _ hadded, List.append_assoc]

/-- A path leads above so much of a directory, and from there to what it adds. -/
theorem walk_climb (path segments : List Text) :
    walk kept path segments =
      above kept path (climb kept (0, []) segments).1 ++ (climb kept (0, []) segments).2 := by
  have h : walk kept (above kept path 0 ++ []) segments = _ := walk_above path segments (0, [])
  rwa [above, List.append_nil] at h

/-- From two directories a path leads to the same place if it climbs above all
that they differ in. -/
theorem walk_eq_iff (path path' segments : List Text) :
    walk kept path segments = walk kept path' segments ↔
      above kept path (climb kept (0, []) segments).1 =
        above kept path' (climb kept (0, []) segments).1 := by
  rw [walk_climb, walk_climb, List.append_cancel_right_eq]

variable (kept) in
/-- A reference names the same relative to two URLs. -/
def SameTarget (path path' : Text) (query query' : Option Text) (r : Text) : Prop :=
  match pathAndQuery r with
  | ([], q) => segmentsOf path = segmentsOf path' ∧ (q = none → query = query')
  | (p, _) => above kept (directory path) (climb kept (0, []) (splitSegments p)).1 =
      above kept (directory path') (climb kept (0, []) (splitSegments p)).1

theorem target_eq_iff (path path' : Text) (query query' : Option Text) (r : Text) :
    target kept path query r = target kept path' query' r ↔
      SameTarget kept path path' query query' r := by
  rw [target, target, SameTarget]
  rcases pathAndQuery r with ⟨_ | ⟨c, p⟩, q⟩
  · rw [Prod.mk.injEq]
    refine and_congr_right fun _ => ?_
    cases q with
    | none => simp
    | some q => simp
  · rw [Prod.mk.injEq, walk_eq_iff]
    exact and_iff_left rfl

instance (path path' : Text) (query query' : Option Text) (r : Text) :
    Decidable (SameTarget kept path path' query query' r) :=
  decidable_of_iff _ (target_eq_iff path path' query query' r)

end Walk

/-- The path with these segments. -/
def render (segments : List Text) : Text := segments.flatMap ('/' :: ·)

theorem render_eq_intercalate (segments : List Text) :
    render segments = ['/'].intercalate ([] :: segments) := by
  induction segments with
  | nil => rfl
  | cons segment segments ih =>
    rw [List.intercalate_cons_cons, render, List.flatMap_cons, ← render, ih]
    cases segments with
    | nil => simp
    | cons next segments =>
      rw [List.intercalate_cons_cons, List.intercalate_cons_cons]
      simp

theorem segmentsOf_render {segments : List Text} (h : ∀ s ∈ segments, '/' ∉ s) :
    segmentsOf (render segments) = segments := by
  rw [segmentsOf, render_eq_intercalate, List.splitOn_intercalate '/' _ (by simp)]
  · rfl
  · simpa using h

theorem render_segmentsOf {path : Text} (h : path.head? = some '/') :
    render (segmentsOf path) = path := by
  obtain ⟨rest, rfl⟩ : ∃ rest, path = '/' :: rest := by
    cases path with
    | nil => cases h
    | cons c rest => exact ⟨rest, by rw [Option.some.inj h]⟩
  have hsplit : ('/' :: rest).splitOn '/' = [] :: rest.splitOn '/' := by
    rw [List.splitOn_cons_eq_if_modifyHead, if_pos (beq_self_eq_true _)]
  rw [segmentsOf, hsplit, render_eq_intercalate, List.drop_one, List.tail_cons, ← hsplit,
    List.intercalate_splitOn]

theorem not_mem_of_mem_splitOn {s t : Text} (h : s ∈ t.splitOn '/') : '/' ∉ s := by
  induction t generalizing s with
  | nil =>
    rw [List.splitOn_nil, List.mem_singleton] at h
    simp [h]
  | cons c t ih =>
    rw [List.splitOn_cons_eq_if_modifyHead] at h
    split_ifs at h with hc
    · rcases List.mem_cons.mp h with rfl | h
      · simp
      · exact ih h
    · cases hsplit : t.splitOn '/' with
      | nil => exact absurd hsplit (List.splitOn_ne_nil _ _)
      | cons first others =>
        rw [hsplit, List.modifyHead_cons] at h
        rw [beq_iff_eq] at hc
        rcases List.mem_cons.mp h with rfl | h
        · simp [Ne.symm hc, ih (hsplit ▸ List.mem_cons_self)]
        · exact ih (hsplit ▸ List.mem_cons_of_mem _ h)

theorem mem_walk {kept : Text → Bool} {P : Text → Prop} (hnil : P []) {path segments : List Text}
    (hpath : ∀ s ∈ path, P s) (hsegments : ∀ s ∈ segments, P s) :
    ∀ s ∈ walk kept path segments, P s := by
  have hclosing (segments : List Text) : ∀ s ∈ closing segments, P s := by
    rw [closing]
    split_ifs
    · simpa using hnil
    · simp
  have happend {xs ys : List Text} (hxs : ∀ s ∈ xs, P s) (hys : ∀ s ∈ ys, P s) :
      ∀ s ∈ xs ++ ys, P s := fun s hs => (List.mem_append.mp hs).elim (hxs s) (hys s)
  induction segments generalizing path with
  | nil => exact hpath
  | cons segment segments ih =>
    have hrest := fun s hs => hsegments s (List.mem_cons_of_mem _ hs)
    rw [walk]
    split
    · exact ih (happend (fun s hs => hpath s ((up_isPrefix _).mem hs)) (hclosing _)) hrest
    · exact ih (happend hpath (hclosing _)) hrest
    · exact ih (happend hpath (by simpa using hsegments segment List.mem_cons_self)) hrest

theorem not_mem_target {kept : Text → Bool} {path r s : Text} {query : Option Text}
    (h : s ∈ (target kept path query r).1) : '/' ∉ s := by
  have hpath (s : Text) (hs : s ∈ segmentsOf path) : '/' ∉ s :=
    not_mem_of_mem_splitOn (List.mem_of_mem_drop hs)
  rw [target] at h
  split at h
  · exact hpath s h
  · exact mem_walk (by simp) (fun s hs => hpath s ((List.dropLast_sublist _).mem hs))
      (fun s hs => not_mem_of_mem_splitOn hs) s h

/-- A path and a query as a URL has them, with what may not stand there
escaped. -/
def escaped (segment query : Text → Text) (p : List Text × Option Text) : Text × Option Text :=
  (render (p.1.map segment), p.2.map query)

section Escaped

variable {segment query : Text → Text} (hslash : ∀ s, '/' ∉ s → '/' ∉ segment s)
include hslash

theorem escaped_eq_iff {p p' : List Text × Option Text} (hp : ∀ s ∈ p.1, '/' ∉ s)
    (hp' : ∀ s ∈ p'.1, '/' ∉ s) : escaped segment query p = escaped segment query p' ↔
      p.1.map segment = p'.1.map segment ∧ p.2.map query = p'.2.map query := by
  have hmap {p : List Text × Option Text} (hp : ∀ s ∈ p.1, '/' ∉ s) :
      ∀ s ∈ p.1.map segment, '/' ∉ s := by
    intro s hs
    obtain ⟨t, ht, rfl⟩ := List.mem_map.mp hs
    exact hslash t (hp t ht)
  rw [escaped, escaped, Prod.mk.injEq]
  refine and_congr_left fun _ => ⟨fun h => ?_, fun h => by rw [h]⟩
  rw [← segmentsOf_render (hmap hp), h, segmentsOf_render (hmap hp')]

/-- Escaping does not blur what a reference names relative to two URLs in which
all is escaped. -/
theorem escaped_target_iff {kept : Text → Bool} {path path' r : Text} {q q' : Option Text}
    (hpath : (segmentsOf path).map segment = segmentsOf path)
    (hpath' : (segmentsOf path').map segment = segmentsOf path')
    (hq : q.map query = q) (hq' : q'.map query = q') :
    escaped segment query (target kept path q r) = escaped segment query (target kept path' q' r) ↔
      SameTarget kept path path' q q' r := by
  refine ⟨fun h => ?_, fun h => congrArg _ ((target_eq_iff ..).mpr h)⟩
  obtain ⟨hsegments, hqueries⟩ :=
    (escaped_eq_iff hslash (fun _ => not_mem_target) (fun _ => not_mem_target)).mp h
  have habove {path : Text} (hpath : (segmentsOf path).map segment = segmentsOf path) (k : Nat) :
      (above kept (directory path) k).map segment = above kept (directory path) k := by
    rw [List.prefix_iff_eq_take.mp (above_isPrefix (directory path) k), List.map_take, directory,
      List.map_dropLast, hpath]
  rw [SameTarget]
  rcases hr : pathAndQuery r with ⟨_ | ⟨c, p⟩, own⟩
  · simp only [target, hr] at hsegments hqueries
    refine ⟨by rw [← hpath, hsegments, hpath'], fun hnone => ?_⟩
    subst hnone
    change q.map query = q'.map query at hqueries
    rwa [hq, hq'] at hqueries
  · simp only [target, hr, walk_climb] at hsegments
    rwa [List.map_append, List.map_append, List.append_cancel_right_eq, habove hpath,
      habove hpath'] at hsegments

end Escaped

theorem walk_plain {kept : Text → Bool} {segments : List Text}
    (h : ∀ s ∈ segments, dotsOf s = none) (path : List Text) :
    walk kept path segments = path ++ segments := by
  induction segments generalizing path with
  | nil => exact (List.append_nil path).symm
  | cons segment segments ih =>
    rw [walk, h segment List.mem_cons_self]
    dsimp only
    rw [ih (fun s hs => h s (List.mem_cons_of_mem _ hs)), List.append_assoc]
    rfl

end CardDavMcp.Library.UrlReference

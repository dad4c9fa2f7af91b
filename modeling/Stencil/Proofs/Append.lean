import Stencil.Proofs.Seam

/-!
# Templates one after the other

Where a template ends with a line, another one can follow: the nodes of both are those of the first and then those of the
second, read with the delimiters that the first leaves in force. A fault of the second is found further down by the lines of
the first (`read_down`). Nothing else is carried over: a change of delimiters inside a section ends with it, and a tag is
alone on its line or not on either side for itself.
-/

namespace Stencil

open Text

namespace Position

def down (p : Position) (k : Nat) : Position := ⟨p.line + k, p.column⟩

theorem advanceAll_down (p : Position) (k : Nat) (s : List Char) :
    (p.down k).advanceAll s = (p.advanceAll s).down k := by
  induction s generalizing p with
  | nil => rfl
  | cons c s ih =>
    have hadvance : (p.down k).advance c = (p.advance c).down k := by
      unfold advance down
      by_cases hc : c = '\n'
      · rw [if_pos hc, if_pos hc, Nat.add_right_comm]
      · rw [if_neg hc, if_neg hc]
    rw [advanceAll_cons, advanceAll_cons, hadvance, ih]

theorem line_advanceAll (p : Position) (s : List Char) :
    (p.advanceAll s).line = p.line + s.count '\n' := by
  induction s generalizing p with
  | nil => rfl
  | cons c s ih =>
    rw [advanceAll_cons, ih, List.count_cons, advance]
    by_cases hc : c = '\n'
    · rw [if_pos hc, hc]
      simp only [beq_self_eq_true, if_true]
      omega
    · rw [if_neg hc, if_neg (by simpa using hc)]
      rfl

/-- Whole lines lead down to the start of a line. -/
theorem advanceAll_lines {s : List Char} (hs : ∀ c ∈ s.getLast?, c = '\n') :
    start.advanceAll s = start.down (s.count '\n') := by
  cases hlast : s.getLast? with
  | none =>
    rw [List.getLast?_eq_none_iff.mp hlast]
    rfl
  | some c =>
    obtain ⟨front, hfront⟩ := List.getLast?_eq_some_iff.mp hlast
    rw [hs c hlast] at hfront
    have hline := line_advanceAll start s
    rw [hfront, advanceAll_append] at hline ⊢
    change (start.advanceAll front).line + 1 = _ at hline
    change (⟨(start.advanceAll front).line + 1, 1⟩ : Position) = _
    rw [hline]
    rfl

end Position

def ParseError.down (e : ParseError) (k : Nat) : ParseError := ⟨e.fault, e.position.down k⟩

namespace Segment

/-- The segment with more text in front of it. -/
def behind (seg : Segment) (s : List Char) : Segment := { seg with text := s ++ seg.text }

def readBehind (s : List Char) :
    Except (List Char × ParseFault) (Option (Segment × List Char)) →
      Except (List Char × ParseFault) (Option (Segment × List Char))
  | .error (before, fault) => .error (s ++ before, fault)
  | .ok none => .ok none
  | .ok (some (seg, rest)) => .ok (some (seg.behind s, rest))

theorem source_behind (seg : Segment) (s : List Char) : (seg.behind s).source = s ++ seg.source := by
  simp only [behind, source, List.append_assoc]

variable {d : Delimiters} {s : List Char}

private theorem ofParts_append (hs : ∀ c ∈ s.getLast?, isLineEnd c = true) (fresh : Bool)
    (before spelling after : List Char) (tag : Tag) :
    ofParts fresh (s ++ before) spelling after tag =
      ((ofParts (startsLine fresh s) before spelling after tag).1.behind s,
        (ofParts (startsLine fresh s) before spelling after tag).2) := by
  have hpad : ∀ c ∈ s.getLast?, isPad c = false := fun c hc => not_isPad_of_isLineEnd (hs c hc)
  unfold ofParts
  simp only
  rw [dropEndWhile_append hpad, takeEndWhile_append hpad, startsLine_append]
  split
  · rfl
  · rfl

/-- Lines without a tag go to the text of the first segment behind them. -/
theorem next_append (huntagged : ¬ d.opener.toList <:+: s) (hs : ∀ c ∈ s.getLast?, isLineEnd c = true)
    (fresh : Bool) (t : List Char) :
    next d fresh (s ++ t) = readBehind s (next d (startsLine fresh s) t) := by
  have hforeign : ∀ c ∈ s.getLast?, c ∉ d.opener.toList := by
    intro c hc hmem
    have hblank := d.not_isBlank_of_mem_opener c hmem
    rw [isBlank_of_isLineEnd (hs c hc)] at hblank
    cases hblank
  unfold next
  rw [cut?_append (cut?_eq_none_iff.mpr huntagged) hforeign]
  cases cut? d.opener.toList t with
  | none => rfl
  | some parts =>
    obtain ⟨before, inside⟩ := parts
    simp only [Option.map_some]
    cases Tag.read d inside with
    | error fault => rfl
    | ok parts =>
      obtain ⟨tag, after⟩ := parts
      simp only [ofParts_append hs]
      rfl

end Segment

namespace Descent

open Node (fuse ofText)

def Place.down (p : Place) (k : Nat) : Place := { p with position := p.position.down k }

def Expected.down (e : Expected) (k : Nat) : Expected := { e with position := e.position.down k }

/-- The region with `front` in front of its nodes, `k` lines further down. -/
def Region.down (r : Region) (front : List Node) (k : Nat) : Region := ⟨fuse front r.nodes, r.stop, r.after.down k⟩

def shifted (front : List Node) (k : Nat) : Except ParseError Region → Except ParseError Region
  | .ok r => .ok (r.down front k)
  | .error e => .error (e.down k)

theorem Place.down_past (p : Place) (k : Nat) (s rest : List Char) :
    (p.down k).past s rest = (p.past s rest).down k := by
  simp only [past, down, Position.advanceAll_down]

theorem Place.ofTag_down (p : Place) (k : Nat) (seg : Segment) : (p.down k).ofTag seg = (p.ofTag seg).down k :=
  Position.advanceAll_down p.position k _

/-- Behind whole lines a template starts as at the top, further down. -/
theorem Place.start_past {s : List Char} (hs : ∀ c ∈ s.getLast?, c = '\n') (u t : List Char) :
    (Place.start u).past s t = (Place.start t).down (s.count '\n') := by
  have hfresh : Segment.startsLine true s = true := by
    rw [Segment.startsLine]
    cases hlast : s.getLast? with
    | none => rfl
    | some c =>
      simp only
      rw [hs c hlast]
      rfl
  rw [start, past, down]
  simp only [hfresh, Position.advanceAll_lines hs]
  rfl

private theorem fuse_push (front nodes text : List Node) {node : Node} (hnode : ∀ text, node ≠ .literal text) :
    fuse (fuse front nodes) text ++ [node] = fuse front (fuse nodes text ++ [node]) := by
  rw [Node.append_singleton_eq_fuse hnode, Node.append_singleton_eq_fuse hnode, Node.fuse_assoc, Node.fuse_assoc,
    Node.fuse_assoc]

/-- Reading does not look back: neither at the nodes in front nor at the line. -/
theorem read_down (expected? : Option Expected) (level : Nat) (d : Delimiters) (front nodes : List Node) (p : Place)
    (k : Nat) : read (expected?.map (·.down k)) level d (fuse front nodes) (p.down k) =
      shifted front k (read expected? level d nodes p) := by
  induction hn : p.rest.length using Nat.strongRecOn generalizing expected? level d front nodes p with
  | ind n ih =>
    have hshift {next : Except (List Char × ParseFault) (Option (Segment × List Char))}
        (h : Segment.next d p.fresh p.rest = next) : Segment.next d (p.down k).fresh (p.down k).rest = next := h
    cases hnext : Segment.next d p.fresh p.rest with
    | error e =>
      rw [read_of_error hnext, read_of_error (hshift hnext)]
      simp only [shifted, ParseError.down, Place.down, Position.advanceAll_down]
    | ok found =>
      cases found with
      | none =>
        rw [read_of_none hnext, read_of_none (hshift hnext)]
        cases expected? with
        | none =>
          simp only [Option.map_none, shifted, Region.down, Node.fuse_assoc]
          rfl
        | some expected => rfl
      | some parts =>
        obtain ⟨seg, rest⟩ := parts
        have hlt : rest.length < n := hn ▸ Segment.length_rest_lt hnext
        cases htag : seg.tag with
        | opening inverted name =>
          rw [read_of_opening hnext htag, read_of_opening (hshift hnext) htag]
          by_cases hdeep : maxOpenSections ≤ level
          · rw [if_pos hdeep, if_pos hdeep, Place.ofTag_down]
            rfl
          · rw [if_neg hdeep, if_neg hdeep, Place.ofTag_down, Place.down_past]
            -- The body is read for itself, with no nodes in front of it.
            have hbody := ih rest.length hlt (some ⟨name, p.ofTag seg⟩) (level + 1) d [] [] (p.past seg.source rest) rfl
            change read (some ⟨name, (p.ofTag seg).down k⟩) (level + 1) d [] ((p.past seg.source rest).down k) = _ at hbody
            rw [hbody]
            cases hread : read (some ⟨name, p.ofTag seg⟩) (level + 1) d [] (p.past seg.source rest) with
            | error e => rfl
            | ok body =>
              have hle : body.after.rest.length ≤ rest.length := length_after_le hread
              simp only [shifted, Except.bind, Region.down, Node.fuse_nil_left]
              rw [fuse_push front nodes _ (Node.ofSection_ne_literal _ _ _ _ _)]
              exact ih body.after.rest.length (by omega) expected? level d front _ body.after rfl
        | closing name =>
          rw [read_of_closing hnext htag, read_of_closing (hshift hnext) htag]
          cases expected? with
          | none =>
            simp only [Option.map_none, Place.ofTag_down]
            rfl
          | some expected =>
            simp only [Option.map_some, Expected.down, Place.ofTag_down, Place.down_past, Node.fuse_assoc]
            by_cases hname : expected.name = name
            · rw [if_pos hname, if_pos hname]
              rfl
            · rw [if_neg hname, if_neg hname]
              rfl
        | _ =>
          have hplain : seg.tag.isPlain = true := by rw [htag]; rfl
          rw [read_of_plain hnext hplain, read_of_plain (hshift hnext) hplain, Place.down_past, append_nodes_eq_fuse,
            append_nodes_eq_fuse, Node.fuse_assoc, Node.fuse_assoc]
          rw [Node.fuse_assoc]
          exact ih rest.length hlt expected? level _ front _ (p.past seg.source rest) rfl

/-- Lines without a tag can be taken in before the tags behind them are looked for. -/
theorem nodes_read_append {d : Delimiters} {s : List Char} (huntagged : ¬ d.opener.toList <:+: s)
    (hs : ∀ c ∈ s.getLast?, isLineEnd c = true) (expected? : Option Expected) (level : Nat) (nodes : List Node) (p : Place)
    (t : List Char) (hp : p.rest = s ++ t) :
    (read expected? level d nodes p).map Region.nodes =
      (read expected? level d (fuse nodes (ofText s)) (p.past s t)).map Region.nodes := by
  have happend : Segment.next d p.fresh p.rest =
      Segment.readBehind s (Segment.next d (p.past s t).fresh (p.past s t).rest) := by
    rw [hp]
    exact Segment.next_append huntagged hs p.fresh t
  have hnodes (seg : Segment) : fuse nodes (ofText (seg.behind s).text) = fuse (fuse nodes (ofText s)) (ofText seg.text) := by
    rw [Node.fuse_assoc, ← Node.ofText_append]
    rfl
  have hpast (seg : Segment) (rest : List Char) : p.past (seg.behind s).source rest = (p.past s t).past seg.source rest := by
    rw [Segment.source_behind, Place.past_past]
  have htagAt (seg : Segment) : p.ofTag (seg.behind s) = (p.past s t).ofTag seg := by
    unfold Place.ofTag Place.past Segment.behind
    simp only [List.append_assoc, Position.advanceAll_append]
  cases hnext : Segment.next d (p.past s t).fresh (p.past s t).rest with
  | error e =>
    rw [hnext] at happend
    rw [read_of_error hnext, read_of_error happend, Position.advanceAll_append]
    rfl
  | ok found =>
    rw [hnext] at happend
    cases found with
    | none =>
      rw [read_of_none hnext, read_of_none happend]
      cases expected? with
      | none =>
        change Except.ok (fuse nodes (ofText p.rest)) = Except.ok (fuse (fuse nodes (ofText s)) (ofText t))
        rw [hp, Node.fuse_assoc, ← Node.ofText_append]
      | some expected => rfl
    | some parts =>
      obtain ⟨seg, rest⟩ := parts
      have htag : (seg.behind s).tag = seg.tag := rfl
      cases hcases : seg.tag with
      | opening inverted name =>
        rw [read_of_opening hnext hcases, read_of_opening happend (htag.trans hcases), hnodes, hpast, htagAt]
      | closing name =>
        rw [read_of_closing hnext hcases, read_of_closing happend (htag.trans hcases), hnodes, hpast, htagAt]
        rfl
      | _ =>
        have hplain : seg.tag.isPlain = true := by rw [hcases]; rfl
        rw [read_of_plain hnext hplain, read_of_plain happend hplain, hnodes, hpast]
        rfl

end Descent

namespace Outline

/-- The delimiters that the region sets outside its sections, in their order. -/
def changes : Outline → List Delimiters
  | done => []
  | tag seg after =>
    match seg.tag with
    | .delimiters next => next :: after.changes
    | _ => after.changes
  | block _ _ _ _ _ after => after.changes

theorem inForce_eq_changes (o : Outline) (d : Delimiters) : o.inForce d = o.changes.getLast?.getD d := by
  induction o generalizing d with
  | done => rfl
  | tag seg after ih =>
    rw [inForce, ih, changes]
    cases htag : seg.tag with
    | delimiters next =>
      simp only [Tag.inForce, List.getLast?_cons, Option.getD_some]
    | _ => rfl
  | block inverted name opening body closing after ihbody ihafter => exact ihafter d

theorem Covers.tail_lineEnd {o : Outline} {d : Delimiters} {s tail : List Char} (h : o.Covers d s tail)
    (hs : ∀ c ∈ s.getLast?, c = '\n') : ∀ c ∈ tail.getLast?, isLineEnd c = true := by
  intro c hc
  have hlast : c ∈ s.getLast? := by
    rw [h.source_eq, List.getLast?_append, Option.mem_def.mp hc, Option.some_or]
    rfl
  rw [hs c hlast]
  rfl

theorem Covers.fits_append {o : Outline} {d : Delimiters} {s tail : List Char} (h : o.Covers d s tail)
    (hs : ∀ c ∈ s.getLast?, c = '\n') (t : List Char) : o.Fits d true (tail ++ t) := by
  have hsource := h.source_eq
  cases hlast : tail.getLast? with
  | none =>
    rw [List.getLast?_eq_none_iff] at hlast
    rw [hlast, List.append_nil] at hsource
    rw [hsource] at hs
    refine h.fits.of_lineEnd ?_ ?_
    · intro c hc
      rw [hs c hc]
      rfl
    · intro _ hreturn
      have hfeed := hs _ hreturn
      cases hfeed
  | some c =>
    have hpad : ∃ c ∈ tail, isPad c = false :=
      ⟨c, List.mem_of_getLast? hlast, not_isPad_of_isLineEnd (h.tail_lineEnd hs c hlast)⟩
    have hfits := h.fits
    rw [← List.append_nil tail] at hfits
    exact hfits.append hpad t

end Outline

/-- Behind a template that ends with a line, another one is read as by itself, with the delimiters that are in force there. -/
theorem parse_append {d : Delimiters} {s : String} {nodes : List Node} (h : parse d s = .ok nodes)
    (hs : s = "" ∨ s.toList.getLast? = some '\n') :
    ∃ o tail, Outline.Covers o d s.toList tail ∧ nodes = Node.fuse (o.nodes d) (Node.ofText tail) ∧
      ∀ t, parse d (s ++ t) = match parse (o.changes.getLast?.getD d) t with
        | .ok after => .ok (Node.fuse nodes after)
        | .error e => .error (e.down (s.toList.count '\n')) := by
  obtain ⟨o, tail, hcovers, rfl⟩ := parse_eq_ok_iff.mp h
  refine ⟨o, tail, hcovers, rfl, ?_⟩
  intro t
  have hline : ∀ c ∈ s.toList.getLast?, c = '\n' := by
    intro c hc
    rcases hs with rfl | hfeed
    · cases hc
    · rw [Option.mem_def.mp hc, Option.some.injEq] at hfeed
      exact hfeed
  have hlevel : 0 + o.depth ≤ maxOpenSections := by
    rw [Nat.zero_add]
    exact hcovers.depth_le
  have hstart : (Descent.Place.start (s ++ t).toList).rest = o.source ++ (tail ++ t.toList) := by
    change (s ++ t).toList = _
    rw [String.toList_append, hcovers.source_eq, List.append_assoc]
  rw [Descent.parse_eq_read, Descent.parse_eq_read,
    Descent.read_outline (hcovers.fits_append hline t.toList) hstart hlevel, Node.fuse_nil_left,
    Descent.nodes_read_append hcovers.untagged (hcovers.tail_lineEnd hline) none 0 _ _ t.toList rfl, Descent.Place.past_past,
    ← hcovers.source_eq, Descent.Place.start_past hline, ← Outline.inForce_eq_changes]
  have hread := Descent.read_down none 0 (o.inForce d) (Node.fuse (o.nodes d) (Node.ofText tail)) [] (.start t.toList)
    (s.toList.count '\n')
  rw [Node.fuse_nil_right] at hread
  change Descent.read none 0 _ _ _ = _ at hread
  rw [hread]
  cases Descent.read none 0 (o.inForce d) [] (.start t.toList) with
  | error e => rfl
  | ok r => rfl

/-- The delimiters that the first line sets are those of all that follows. -/
theorem parse_append_of_change :
    parse .standard "\x7b\x7b=<% %>=\x7d\x7d\nx\n" = .ok [.literal "x\n"] ∧
      "\x7b\x7b=<% %>=\x7d\x7d\nx\n".toList.getLast? = some '\n' ∧
      ∃ o tail, Outline.Covers o .standard "\x7b\x7b=<% %>=\x7d\x7d\nx\n".toList tail ∧
        [.literal "x\n"] = Node.fuse (o.nodes .standard) (Node.ofText tail) ∧
        ∀ t, parse .standard ("\x7b\x7b=<% %>=\x7d\x7d\nx\n" ++ t) =
          match parse (o.changes.getLast?.getD .standard) t with
          | .ok after => .ok (Node.fuse [.literal "x\n"] after)
          | .error e => .error (e.down ("\x7b\x7b=<% %>=\x7d\x7d\nx\n".toList.count '\n')) :=
  ⟨by cbv, by decide, parse_append (by cbv) (.inr (by decide))⟩

end Stencil

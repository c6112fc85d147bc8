import Ns3.Olsr.RoutingTable

/-!
# Entries of neighbours

Step 2 overlays the entries of one neighbour after the other. An interface of a neighbour keeps the
direct entry unless it is also the main address of a neighbour that comes later.
-/

namespace Ns3.Olsr

open Network Semantics List Option RoutingTable

variable {table : RoutingTable} {dest next : Ipv4Address} {interface distance : Nat}

theorem addEntry_self : table.addEntry dest next interface distance dest = some ⟨dest, next, interface, distance⟩ :=
  Function.update_self _ _ _

theorem addEntry_of_ne {address : Ipv4Address}
    (other : address ≠ dest) : table.addEntry dest next interface distance address = table address :=
  Function.update_of_ne other _ _

namespace OlsrState

variable {state : OlsrState} {main address : Ipv4Address} {entry : RoutingTableEntry} {link : LinkTuple}
  {table : RoutingTable} {neighbors : List NeighborTuple}

/-- The links of a neighbour that have not expired. -/
def liveLinks (state : OlsrState) (main : Ipv4Address) : List LinkTuple :=
  state.linkSet.filter (state.isLinkOf main)

/-- The entry that the neighbour with a main address gives an address. -/
def oneHopEntry (state : OlsrState) (main address : Ipv4Address) : Option RoutingTableEntry :=
  match (state.liveLinks main).reverse.find? fun link => link.neighborIfaceAddr = address with
  | some link => some ⟨address, address, state.interfaceOf link.localIfaceAddr, 1⟩
  | none =>
    if address = main then
      (state.liveLinks main).getLast?.map fun link =>
        ⟨address, link.neighborIfaceAddr, state.interfaceOf link.localIfaceAddr, 1⟩
    else none

theorem getMainAddress_of_mem (mem : link ∈ state.liveLinks main) :
    state.getMainAddress link.neighborIfaceAddr = main := by
  have isLink := (mem_filter.mp mem).2
  unfold isLinkOf at isLink
  exact (of_decide_eq_true isLink).1

theorem oneHopEntry_of_link (mem : link ∈ state.liveLinks main) (isAddress : link.neighborIfaceAddr = address) :
    ∃ other ∈ state.liveLinks main, other.neighborIfaceAddr = address ∧
      state.oneHopEntry main address = some ⟨address, address, state.interfaceOf other.localIfaceAddr, 1⟩ := by
  unfold oneHopEntry
  cases found : (state.liveLinks main).reverse.find? fun link => link.neighborIfaceAddr = address with
  | none =>
    have none := find?_eq_none.mp found link (mem_reverse.mpr mem)
    simp [isAddress] at none
  | some other =>
    exact ⟨other, mem_reverse.mp (mem_of_find?_eq_some found), by simpa using find?_some found, rfl⟩

theorem oneHopEntry_cases (isEntry : state.oneHopEntry main address = some entry) :
    entry.destAddr = address ∧ entry.distance = 1 ∧
      ((entry.nextAddr = address ∧ ∃ link ∈ state.liveLinks main, link.neighborIfaceAddr = address) ∨
        (address = main ∧ (∀ link ∈ state.liveLinks main, link.neighborIfaceAddr ≠ address) ∧
          ∃ link ∈ state.liveLinks main, entry.nextAddr = link.neighborIfaceAddr ∧
            state.oneHopEntry main link.neighborIfaceAddr =
              some ⟨link.neighborIfaceAddr, link.neighborIfaceAddr, entry.interface, 1⟩)) := by
  unfold oneHopEntry at isEntry
  split at isEntry
  · rename_i link found
    cases isEntry
    exact ⟨rfl, rfl, .inl ⟨rfl, link, mem_reverse.mp (mem_of_find?_eq_some found),
      by simpa using find?_some found⟩⟩
  · rename_i found
    split at isEntry
    · rename_i isMain
      obtain ⟨link, isLast, rfl⟩ := map_eq_some_iff.mp isEntry
      refine ⟨rfl, rfl, .inr ⟨isMain, fun other mem isAddress => ?_, link, mem_of_getLast? isLast, rfl, ?_⟩⟩
      · have none := find?_eq_none.mp found other (mem_reverse.mpr mem)
        simp [isAddress] at none
      · unfold oneHopEntry
        rw [getLast?_eq_head?_reverse] at isLast
        obtain ⟨rest, isReverse⟩ := head?_eq_some_iff.mp isLast
        rw [isReverse, find?_cons_of_pos (by simp)]
    · cases isEntry

theorem oneHopEntry_isSome : (state.oneHopEntry main address).isSome ↔
    (∃ link ∈ state.liveLinks main, link.neighborIfaceAddr = address) ∨
      (address = main ∧ state.liveLinks main ≠ []) := by
  constructor
  · intro isSome
    obtain ⟨entry, isEntry⟩ := isSome_iff_exists.mp isSome
    obtain ⟨-, -, ⟨-, direct⟩ | ⟨isMain, -, link, mem, -⟩⟩ := oneHopEntry_cases isEntry
    · exact .inl direct
    · exact .inr ⟨isMain, ne_nil_of_mem mem⟩
  · rintro (⟨link, mem, isAddress⟩ | ⟨rfl, links⟩)
    · obtain ⟨other, -, -, isEntry⟩ := oneHopEntry_of_link mem isAddress
      rw [isEntry]
      rfl
    · unfold oneHopEntry
      split
      · rfl
      · rw [if_pos rfl, isSome_map, getLast?_isSome]
        exact links

theorem scan_links (links : List LinkTuple) : ∃ scan, links.foldl (fun scan link =>
      { table := scan.table.addEntry link.neighborIfaceAddr link.neighborIfaceAddr
          (state.interfaceOf link.localIfaceAddr) 1
        nbMainAddr := scan.nbMainAddr || link.neighborIfaceAddr = main
        lt := some link : LinkScan }) { table } = scan ∧
    (scan.nbMainAddr = true ↔ ∃ link ∈ links, link.neighborIfaceAddr = main) ∧ scan.lt = links.getLast? ∧
    ∀ address, scan.table address =
      match links.reverse.find? fun link => link.neighborIfaceAddr = address with
      | some link => some ⟨address, address, state.interfaceOf link.localIfaceAddr, 1⟩
      | none => table address := by
  induction links using reverseRecOn with
  | nil => exact ⟨{ table }, rfl, by simp, rfl, fun address => rfl⟩
  | append_singleton links last ih =>
    obtain ⟨scan, isScan, isMain, -, isTable⟩ := ih
    rw [foldl_append, isScan]
    refine ⟨_, rfl, ?_, by simp, fun address => ?_⟩
    · dsimp only [foldl_cons, foldl_nil]
      rw [Bool.or_eq_true, isMain, decide_eq_true_eq]
      simp only [mem_append, mem_singleton, or_and_right, exists_or, exists_eq_left]
    · dsimp only [foldl_cons, foldl_nil]
      rw [reverse_append, reverse_singleton, singleton_append]
      by_cases here : last.neighborIfaceAddr = address
      · subst here
        rw [find?_cons_of_pos (by simp), addEntry_self]
      · rw [find?_cons_of_neg (by simpa using here), addEntry_of_ne (Ne.symm here), isTable]

theorem addNeighbor_apply (tuple : NeighborTuple) : state.addNeighbor table tuple address =
    if tuple.status = .sym then (state.oneHopEntry tuple.neighborMainAddr address).or (table address)
    else table address := by
  unfold addNeighbor
  split
  · obtain ⟨⟨scanned, isNb, lt⟩, isScan, isMain, isLast, isTable⟩ := 
      @scan_links state tuple.neighborMainAddr table (state.liveLinks tuple.neighborMainAddr)
    dsimp only at isMain isLast isTable
    have whole : state.linkSet.foldl (state.scanLink tuple.neighborMainAddr) { table } = ⟨scanned, isNb, lt⟩ := by
      rw [← isScan, liveLinks, foldl_filter]
      rfl
    have found_none : isNb = false -> (state.liveLinks tuple.neighborMainAddr).reverse.find?
          (fun link => link.neighborIfaceAddr = tuple.neighborMainAddr) = none := by
      rintro rfl
      apply find?_eq_none.mpr
      intro link mem isAddress
      exact Bool.false_ne_true (isMain.mpr ⟨link, mem_reverse.mp mem, of_decide_eq_true isAddress⟩)
    dsimp only
    rw [whole]
    unfold oneHopEntry
    cases isNb with
    | true =>
      dsimp only
      rw [isTable]
      cases found : (state.liveLinks tuple.neighborMainAddr).reverse.find? fun link =>
        link.neighborIfaceAddr = address with
      | some link => rfl
      | none =>
        obtain ⟨link, mem, isAddress⟩ := isMain.mp rfl
        have other : address ≠ tuple.neighborMainAddr := by
          rintro rfl
          have none := find?_eq_none.mp found link (mem_reverse.mpr mem)
          simp [isAddress] at none
        rw [if_neg other]
        rfl
    | false =>
      by_cases here : address = tuple.neighborMainAddr
      · subst here
        rw [found_none rfl, if_pos rfl, ← isLast]
        cases lt with
        | none =>
          dsimp only
          rw [isTable, found_none rfl]
          rfl
        | some lt =>
          dsimp only
          rw [addEntry_self]
          rfl
      · have value := isTable address
        rw [if_neg here]
        cases lt with
        | none =>
          dsimp only
          rw [value]
          cases (state.liveLinks tuple.neighborMainAddr).reverse.find? fun link => link.neighborIfaceAddr = address with
          | some link => rfl
          | none => rfl
        | some lt =>
          dsimp only
          rw [addEntry_of_ne here, value]
          cases (state.liveLinks tuple.neighborMainAddr).reverse.find? fun link => link.neighborIfaceAddr = address with
          | some link => rfl
          | none => rfl
  · rfl

/-- What the last neighbour that gives an address an entry gives it. -/
theorem foldl_addNeighbor (neighbors : List NeighborTuple) :
    neighbors.foldl state.addNeighbor table address = some entry ↔
      (∃ before tuple after, neighbors = before ++ tuple :: after ∧ tuple.status = .sym ∧
        state.oneHopEntry tuple.neighborMainAddr address = some entry ∧
        ∀ later ∈ after, later.status = .sym -> state.oneHopEntry later.neighborMainAddr address = none) ∨
      (table address = some entry ∧
        ∀ tuple ∈ neighbors, tuple.status = .sym -> state.oneHopEntry tuple.neighborMainAddr address = none) := by
  induction neighbors using reverseRecOn with
  | nil => simp
  | append_singleton neighbors last ih =>
    rw [foldl_append, foldl_cons, foldl_nil, addNeighbor_apply]
    by_cases writes : last.status = .sym ∧ (state.oneHopEntry last.neighborMainAddr address).isSome
    · obtain ⟨isSym, isSome⟩ := writes
      obtain ⟨written, isWritten⟩ := isSome_iff_exists.mp isSome
      rw [if_pos isSym, isWritten, some_or, some_inj]
      constructor
      · rintro rfl
        exact .inl ⟨neighbors, last, [], rfl, isSym, isWritten, by simp⟩
      · rintro (⟨before, tuple, after, parts, -, isEntry, none⟩ | ⟨-, none⟩)
        · rcases eq_nil_or_concat after with rfl | ⟨rest, final, rfl⟩
          · obtain ⟨-, same⟩ := append_inj' parts rfl
            obtain rfl := singleton_inj.mp same
            exact some.inj (isWritten.symm.trans isEntry)
          · rw [concat_eq_append, ← cons_append, ← append_assoc] at parts
            obtain ⟨-, same⟩ := append_inj' parts rfl
            obtain rfl := singleton_inj.mp same
            rw [none last (by simp) isSym] at isWritten
            cases isWritten
        · rw [none last (by simp) isSym] at isWritten
          cases isWritten
    · have lastNone : last.status = .sym -> state.oneHopEntry last.neighborMainAddr address = none := by
        intro isSym
        rw [← not_isSome_iff_eq_none]
        exact fun isSome => writes ⟨isSym, isSome⟩
      have kept : (if last.status = .sym then (state.oneHopEntry last.neighborMainAddr address).or
          (neighbors.foldl state.addNeighbor table address) else neighbors.foldl state.addNeighbor table address) =
          neighbors.foldl state.addNeighbor table address := by
        split
        · rename_i isSym
          rw [lastNone isSym, none_or]
        · rfl
      rw [kept, ih]
      constructor
      · rintro (⟨before, tuple, after, rfl, isSym, isEntry, none⟩ | ⟨isEntry, none⟩)
        · refine .inl ⟨before, tuple, after ++ [last], by simp, isSym, isEntry, ?_⟩
          exact forall_mem_append.mpr ⟨none, forall_mem_singleton.mpr lastNone⟩
        · exact .inr ⟨isEntry, forall_mem_append.mpr ⟨none, forall_mem_singleton.mpr lastNone⟩⟩
      · rintro (⟨before, tuple, after, parts, isSym, isEntry, none⟩ | ⟨isEntry, none⟩)
        · rcases eq_nil_or_concat after with rfl | ⟨rest, final, rfl⟩
          · obtain ⟨-, same⟩ := append_inj' parts rfl
            obtain rfl := singleton_inj.mp same
            rw [lastNone isSym] at isEntry
            cases isEntry
          · rw [concat_eq_append, ← cons_append, ← append_assoc] at parts
            obtain ⟨rfl, -⟩ := append_inj' parts rfl
            exact .inl ⟨before, tuple, rest, rfl, isSym, isEntry, fun later mem => none later (by simp [mem])⟩
        · exact .inr ⟨isEntry, fun tuple mem => none tuple (by simp [mem])⟩

theorem foldl_addNeighbor_eq_none (neighbors : List NeighborTuple) :
    neighbors.foldl state.addNeighbor table address = none ↔
      table address = none ∧
        ∀ tuple ∈ neighbors, tuple.status = .sym -> state.oneHopEntry tuple.neighborMainAddr address = none := by
  induction neighbors generalizing table with
  | nil => simp
  | cons first neighbors ih =>
    rw [foldl_cons, ih, addNeighbor_apply, forall_mem_cons, ← and_assoc]
    apply and_congr_left'
    split
    · rename_i isSym
      rw [or_eq_none_iff]
      tauto
    · rename_i notSym
      tauto

/-- The addresses of symmetric neighbours with a live link. -/
def OneHop (state : OlsrState) (address : Ipv4Address) : Prop :=
  ∃ tuple ∈ state.neighborSet, tuple.status = .sym ∧
    ((∃ link ∈ state.liveLinks tuple.neighborMainAddr, link.neighborIfaceAddr = address) ∨
      (address = tuple.neighborMainAddr ∧ state.liveLinks tuple.neighborMainAddr ≠ []))

theorem oneHopTable_isSome : (state.oneHopTable address).isSome ↔ state.OneHop address := by
  rw [← not_iff_not, not_isSome_iff_eq_none, oneHopTable, foldl_addNeighbor_eq_none]
  unfold OneHop
  simp only [true_and, not_exists, not_and, ← oneHopEntry_isSome, not_isSome_iff_eq_none]

/-- An entry of a neighbour is the last one that it is given. -/
theorem oneHopTable_eq_some : state.oneHopTable address = some entry ↔
    ∃ before tuple after, state.neighborSet = before ++ tuple :: after ∧ tuple.status = .sym ∧
      state.oneHopEntry tuple.neighborMainAddr address = some entry ∧
      ∀ later ∈ after, later.status = .sym -> state.oneHopEntry later.neighborMainAddr address = none := by
  unfold oneHopTable
  rw [foldl_addNeighbor]
  exact or_iff_left (by simp)

theorem oneHopTable_entry (isEntry : state.oneHopTable address = some entry) :
    entry.destAddr = address ∧ entry.distance = 1 := by
  obtain ⟨-, tuple, -, -, -, given, -⟩ := oneHopTable_eq_some.mp isEntry
  obtain ⟨isDest, isDistance, -⟩ := oneHopEntry_cases given
  exact ⟨isDest, isDistance⟩

/-- A symmetric neighbour whose main address is an interface of another one comes before that one. -/
def InterfacesLast (state : OlsrState) : Prop :=
  ∀ before tuple after, state.neighborSet = before ++ tuple :: after -> tuple.status = .sym ->
    state.liveLinks tuple.neighborMainAddr ≠ [] ->
    ∀ other ∈ state.neighborSet, other.status = .sym -> other.neighborMainAddr ≠ tuple.neighborMainAddr ->
      (∃ link ∈ state.liveLinks other.neighborMainAddr, link.neighborIfaceAddr = tuple.neighborMainAddr) ->
      ∃ later ∈ after, later.status = .sym ∧ later.neighborMainAddr = other.neighborMainAddr

/-- Each interface that a live link leads to is its own next hop. -/
def Direct (state : OlsrState) (table : RoutingTable) : Prop :=
  ∀ tuple ∈ state.neighborSet, tuple.status = .sym -> ∀ link ∈ state.liveLinks tuple.neighborMainAddr,
    ∃ other ∈ state.liveLinks tuple.neighborMainAddr, other.neighborIfaceAddr = link.neighborIfaceAddr ∧
      table link.neighborIfaceAddr =
        some ⟨link.neighborIfaceAddr, link.neighborIfaceAddr, state.interfaceOf other.localIfaceAddr, 1⟩

theorem interfacesLast_iff : state.InterfacesLast ↔ state.Direct state.oneHopTable := by
  constructor
  · intro last tuple mem isSym link isLink
    have present : (state.oneHopTable link.neighborIfaceAddr).isSome :=
      oneHopTable_isSome.mpr ⟨tuple, mem, isSym, .inl ⟨link, isLink, rfl⟩⟩
    obtain ⟨entry, isEntry⟩ := isSome_iff_exists.mp present
    obtain ⟨before, writer, after, parts, writes, given, none⟩ := oneHopTable_eq_some.mp isEntry
    obtain ⟨-, -, ⟨-, other, isOther, same⟩ | ⟨isMain, noLink, first, isFirst, -⟩⟩ := oneHopEntry_cases given
    · have sameMain : writer.neighborMainAddr = tuple.neighborMainAddr := by
        rw [← getMainAddress_of_mem isOther, same, getMainAddress_of_mem isLink]
      obtain ⟨direct, isDirect, sameIface, isGiven⟩ := oneHopEntry_of_link isOther same
      rw [sameMain] at isDirect isGiven given
      exact ⟨direct, isDirect, sameIface, by rw [isEntry, ← given, isGiven]⟩
    · have ne : tuple.neighborMainAddr ≠ writer.neighborMainAddr := by
        intro sameMain
        rw [sameMain] at isLink
        exact noLink link isLink rfl
      obtain ⟨later, isLater, laterSym, laterMain⟩ := last before writer after parts writes
        (ne_nil_of_mem isFirst) tuple mem isSym ne ⟨link, isLink, isMain⟩
      have without := none later isLater laterSym
      obtain ⟨direct, -, -, isGiven⟩ := oneHopEntry_of_link isLink rfl
      rw [laterMain, isGiven] at without
      cases without
  · intro direct before tuple after parts isSym links other isOther otherSym ne interface
    obtain ⟨link, isLink, isMain⟩ := interface
    obtain ⟨recorded, -, -, isEntry⟩ := direct other isOther otherSym link isLink
    rw [isMain] at isEntry
    have mainOf : state.getMainAddress tuple.neighborMainAddr = other.neighborMainAddr := by
      rw [← isMain, getMainAddress_of_mem isLink]
    have ownEntry := oneHopEntry_isSome.mpr (.inr ⟨rfl, links⟩)
    -- This neighbour writes the entry, so it stems from it or from a later one.
    have written : ∃ later ∈ tuple :: after, later.status = .sym ∧
        state.oneHopEntry later.neighborMainAddr tuple.neighborMainAddr = state.oneHopTable tuple.neighborMainAddr := by
      rw [isEntry]
      unfold oneHopTable at isEntry
      rw [parts, foldl_append, foldl_cons] at isEntry
      rcases (foldl_addNeighbor after).mp isEntry with ⟨early, later, late, rfl, laterSym, given, -⟩ | ⟨given, -⟩
      · exact ⟨later, by simp, laterSym, given⟩
      · rw [addNeighbor_apply, if_pos isSym, or_of_isSome ownEntry] at given
        exact ⟨tuple, mem_cons_self, isSym, given⟩
    obtain ⟨later, isLater, laterSym, given⟩ := written
    rw [isEntry] at given
    have laterMain : later.neighborMainAddr = other.neighborMainAddr := by
      obtain ⟨-, -, ⟨-, first, isFirst, same⟩ | ⟨same, -, first, isFirst, isNext, -⟩⟩ := oneHopEntry_cases given
      · rw [← mainOf, ← same, getMainAddress_of_mem isFirst]
      · dsimp only at isNext
        rw [← mainOf, isNext, getMainAddress_of_mem isFirst]
    rcases mem_cons.mp isLater with rfl | isAfter
    · exact absurd laterMain.symm ne
    · exact ⟨later, isAfter, laterSym, laterMain⟩

/-- The next hop of an entry has a direct one on the same interface. -/
def HopIn (table : RoutingTable) (entry : RoutingTableEntry) : Prop :=
  table entry.nextAddr = some ⟨entry.nextAddr, entry.nextAddr, entry.interface, 1⟩

theorem HopIn.congr {other : RoutingTableEntry} (hop : HopIn table entry) (sameNext : other.nextAddr = entry.nextAddr)
    (sameInterface : other.interface = entry.interface) : HopIn table other := by
  unfold HopIn
  rw [sameNext, sameInterface]
  exact hop

theorem Direct.hopIn (direct : state.Direct state.oneHopTable) (isEntry : state.oneHopTable address = some entry) :
    HopIn state.oneHopTable entry := by
  obtain ⟨before, tuple, after, parts, isSym, given, -⟩ := oneHopTable_eq_some.mp isEntry
  have mem : tuple ∈ state.neighborSet := by simp [parts]
  unfold HopIn
  obtain ⟨isDest, isDistance, ⟨isNext, -⟩ | ⟨-, -, link, isLink, isNext, isGiven⟩⟩ := oneHopEntry_cases given
  · rw [isNext, isEntry]
    congr 1
    rw [← isDistance]
    cases entry
    simp_all
  · rw [isNext]
    obtain ⟨recorded, -, -, isHop⟩ := direct tuple mem isSym link isLink
    rw [isHop]
    obtain ⟨-, writer, -, -, -, hopGiven, -⟩ := oneHopTable_eq_some.mp isHop
    obtain ⟨-, -, ⟨-, first, isFirst, same⟩ | ⟨isMain, noLink, first, isFirst, hopNext, -⟩⟩ :=
      oneHopEntry_cases hopGiven
    · have sameMain : writer.neighborMainAddr = tuple.neighborMainAddr := by
        rw [← getMainAddress_of_mem isFirst, same, getMainAddress_of_mem isLink]
      rw [← isGiven, ← sameMain, hopGiven]
    · dsimp only at hopNext
      exact absurd hopNext.symm (noLink first isFirst)

end OlsrState
end Ns3.Olsr

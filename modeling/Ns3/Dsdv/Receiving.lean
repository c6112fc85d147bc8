import Ns3.Dsdv.RouteInvariant

/-!
# Receiving updates

Each header of an update keeps what the entries stand for, as long as what is learned anew is newer
than what the node has told.
-/

namespace Ns3.Dsdv

open Ns3.Network List Option RoutingTable

namespace RoutingProtocol

variable {remote : Ipv4Address -> Prop} {heard : Ipv4Address -> DsdvHeader -> Prop} {told : DsdvHeader -> Prop}
  {node middle next : RoutingProtocol} {now : Nat} {host : Host} {dst sender : Ipv4Address}
  {rt advEntry fwdEntry : RoutingTableEntry} {header : DsdvHeader}

/-- What becomes of the main table: sequence numbers do not fall, and what leaves it is advertised
and not learned again. -/
structure Succeeds (remote : Ipv4Address -> Prop) (node next : RoutingProtocol) : Prop where
  own : ∀ dst, ¬remote dst -> next.routingTable.lookupRoute dst = node.routingTable.lookupRoute dst
  seqNo_le : ∀ dst rt rt', node.routingTable.lookupRoute dst = some rt ->
    next.routingTable.lookupRoute dst = some rt' ->
    rt.seqNo ≤ rt'.seqNo
  remembers : ∀ dst, next.routingTable.lookupRoute dst = none ->
    node.routingTable.lookupRoute dst ≠ none ∨ node.advRoutingTable.lookupRoute dst ≠ none ->
      next.advRoutingTable.lookupRoute dst ≠ none
  notRelearned : ∀ dst, node.routingTable.lookupRoute dst = none -> node.advRoutingTable.lookupRoute dst ≠ none ->
    next.routingTable.lookupRoute dst = none

theorem Succeeds.refl (node : RoutingProtocol) : Succeeds remote node node := by
  refine ⟨fun _ _ => rfl, fun dst rt rt' found found' => ?_, fun dst absent present => ?_, fun _ absent _ => absent⟩
  · cases found.symm.trans found'
    exact Nat.le_refl _
  · obtain present | present := present
    · exact absurd absent present
    · exact present

theorem Succeeds.trans (first : Succeeds remote node middle) (second : Succeeds remote middle next) :
    Succeeds remote node next := by
  refine ⟨fun dst notRemote => ?_, fun dst rt rt' found found' => ?_, fun dst absent present => ?_,
    fun dst absent present => ?_⟩
  · exact (second.own dst notRemote).trans (first.own dst notRemote)
  · cases between : middle.routingTable.lookupRoute dst with
    | none =>
      have advertised := first.remembers dst between (.inl (by simp [found]))
      cases found'.symm.trans (second.notRelearned dst between advertised)
    | some rt'' =>
        exact Nat.le_trans (first.seqNo_le dst rt rt'' found between)
          (second.seqNo_le dst rt'' rt' between found')
  · by_cases between : middle.routingTable.lookupRoute dst = none
    · exact second.remembers dst absent (.inr (first.remembers dst between present))
    · exact second.remembers dst absent (.inl between)
  · by_cases advertised : middle.advRoutingTable.lookupRoute dst = none
    · exact absurd advertised (first.remembers dst (first.notRelearned dst absent present) (.inr present))
    · exact second.notRelearned dst (first.notRelearned dst absent present) advertised

theorem Refiled.succeeds (refiled : Refiled remote heard node next)
    (remembers : ∀ dst, next.routingTable.lookupRoute dst = none ->
      node.routingTable.lookupRoute dst ≠ none ∨ node.advRoutingTable.lookupRoute dst ≠ none ->
        next.advRoutingTable.lookupRoute dst ≠ none) : Succeeds remote node next := by
  refine ⟨refiled.own, fun dst rt rt' found found' => refiled.seqNo_le found found', remembers, fun dst absent _ => ?_⟩
  cases found : next.routingTable.lookupRoute dst with
  | none => rfl
  | some rt =>
    obtain before | ⟨old, _, before, _⟩ := refiled.main dst rt found
    · cases absent.symm.trans before
    · cases absent.symm.trans before

/-- A step of the tables that keeps what they stand for. -/
structure Sane (remote : Ipv4Address -> Prop) (heard : Ipv4Address -> DsdvHeader -> Prop) (told : DsdvHeader -> Prop)
    (node next : RoutingProtocol) : Prop where
  sound : Sound remote heard told next
  succeeds : Succeeds remote node next

theorem Sane.trans (first : Sane remote heard told node middle) (second : Sane remote heard told middle next) :
    Sane remote heard told node next :=
  ⟨second.sound, first.succeeds.trans second.succeeds⟩

section

variable (sound : Sound remote heard told node)
include sound

theorem Sound.sane_discard (present : node.routingTable.lookupRoute dst ≠ none) :
    Sane remote heard told node (node.discard dst) := by
  rw [discard]
  split
  case isTrue => exact ⟨sound, .refl node⟩
  case isFalse =>
    have refiled : Refiled remote heard node { node with advRoutingTable := node.advRoutingTable.deleteRoute dst } := by
      refine ⟨rfl, rfl, fun _ _ => rfl, fun _ _ found => .inl found, fun other rt found => .inl ?_⟩
      rw [lookupRoute_deleteRoute] at found
      split at found
      case isTrue => cases found
      case isFalse => exact found
    refine ⟨sound.refiled refiled, refiled.succeeds fun other absent before => ?_⟩
    rw [lookupRoute_deleteRoute, if_neg]
    · exact before.resolve_left fun mainPresent => mainPresent absent
    · rintro rfl
      exact present absent

theorem Sound.sane_sameOrWorse
    (advFound : node.advRoutingTable.lookupRoute dst = some advEntry)
    (present : node.routingTable.lookupRoute dst ≠ none) :
    Sane remote heard told node (node.sameOrWorse now sender dst advEntry) := by
  have pending := sound.adv dst advEntry advFound
  have filed : ({ advEntry with lifeTime := now } : RoutingTableEntry).getDestination node.routes = dst :=
    pending.routed.destination
  rw [sameOrWorse]
  split
  case isTrue => exact ⟨sound, .refl node⟩
  case isFalse =>
    set next : RoutingProtocol := { node with
      routingTable :=
        if advEntry.getNextHop node.routes = sender then
          node.routingTable.update node.routes { advEntry with lifeTime := now }
        else node.routingTable
      advRoutingTable := node.advRoutingTable.deleteRoute dst } with isNext
    have advNow : ∀ other, next.advRoutingTable.lookupRoute other =
        if dst = other then none else node.advRoutingTable.lookupRoute other :=
      fun other => lookupRoute_deleteRoute
    have mainNow : ∀ other, next.routingTable.lookupRoute other = node.routingTable.lookupRoute other ∨
        dst = other ∧ next.routingTable.lookupRoute other =
          (node.routingTable.lookupRoute other).map fun _ => { advEntry with lifeTime := now } := by
      intro other
      rw [isNext]
      split
      case isFalse => exact .inl rfl
      case isTrue =>
        rw [lookupRoute_update, filed]
        by_cases same : dst = other
        · exact .inr ⟨same, if_pos same⟩
        · exact .inl (if_neg same)
    have refiled : Refiled remote heard node next := by
      refine ⟨rfl, rfl, fun other notRemote => ?_, fun other rt found => ?_, fun other rt found => .inl ?_⟩
      · obtain unchanged | ⟨rfl, _⟩ := mainNow other
        · exact unchanged
        · exact absurd pending.remote notRemote
      · obtain unchanged | ⟨rfl, changed⟩ := mainNow other
        · exact .inl (unchanged.symm.trans found)
        · obtain ⟨old, before, rfl⟩ := map_eq_some_iff.mp (changed.symm.trans found)
          refine .inr ⟨old, advEntry, before, pending, ⟨rfl, rfl, rfl⟩, fun other also => ?_⟩
          rw [advNow, if_pos rfl] at also
          cases also
      · rw [advNow] at found
        split at found
        case isTrue => cases found
        case isFalse => exact found
    refine ⟨sound.refiled refiled, refiled.succeeds fun other absent before => ?_⟩
    have absentBefore : node.routingTable.lookupRoute other = none := by
      obtain unchanged | ⟨_, changed⟩ := mainNow other
      · exact unchanged.symm.trans absent
      · exact map_eq_none_iff.mp (changed.symm.trans absent)
    rw [advNow, if_neg]
    · exact before.resolve_left fun mainPresent => mainPresent absentBefore
    · rintro rfl
      exact present absentBefore

/-- Before an update is compared, the main entry is advertised if none is. -/
theorem Sound.sane_advertise (isRemote : remote dst) (found : node.routingTable.lookupRoute dst = some fwdEntry) :
    Sane remote heard told node { node with advRoutingTable := node.advRoutingTable.addRoute node.routes fwdEntry } ∧
      lookupRoute (node.advRoutingTable.addRoute node.routes fwdEntry) dst =
        some ((node.advRoutingTable.lookupRoute dst).getD fwdEntry) := by
  have filed := (sound.routed dst fwdEntry found).destination
  have refiled : Refiled remote heard node
      { node with advRoutingTable := node.advRoutingTable.addRoute node.routes fwdEntry } := by
    refine ⟨rfl, rfl, fun _ _ => rfl, fun _ _ found => .inl found, fun other rt advFound => ?_⟩
    rw [lookupRoute_addRoute, filed] at advFound
    split at advFound
    case isFalse => exact .inl advFound
    case isTrue same =>
      subst same
      cases before : node.advRoutingTable.lookupRoute dst with
      | some old =>
        rw [before] at advFound
        exact .inl advFound
      | none =>
        rw [before] at advFound
        cases advFound
        exact .inr (.inl ⟨found, isRemote⟩)
  refine ⟨⟨sound.refiled refiled, refiled.succeeds fun other absent before => ?_⟩, ?_⟩
  · change (addRoute _ _ _).lookupRoute other ≠ none
    rw [lookupRoute_addRoute]
    split
    case isTrue => exact some_ne_none _
    case isFalse => exact before.resolve_left fun mainPresent => mainPresent absent
  · rw [lookupRoute_addRoute, if_pos filed]

theorem Sound.sane_forceDelete (dst : Ipv4Address) : Sane remote heard told node (node.forceDeleteIpv4Event dst) := by
  have refiled : Refiled remote heard node (node.forceDeleteIpv4Event dst) := .of_tables rfl rfl rfl rfl
  refine ⟨sound.refiled refiled, refiled.succeeds fun other absent before => ?_⟩
  exact before.resolve_left fun mainPresent => mainPresent absent

theorem Sound.sane_sameMetric (now : Nat)
    (advFound : node.advRoutingTable.lookupRoute header.dst = some advEntry)
    (takesUp : TakesUp heard sender header advEntry) :
    Sane remote heard told node (node.sameMetric now sender header advEntry) := by
  have pending := sound.adv _ _ advFound
  refine ⟨sound.sameMetric now advFound takesUp, fun _ _ => rfl, fun dst rt rt' found found' => ?_,
    fun dst absent present => ?_, fun _ absent _ => absent⟩
  · cases found.symm.trans found'
    exact Nat.le_refl _
  · rw [lookupRoute_sameMetric now pending.routed advFound]
    split
    case isTrue => exact some_ne_none _
    case isFalse => exact present.resolve_left fun mainPresent => mainPresent absent

theorem Sound.sane_changedMetric (now : Nat)
    (advFound : node.advRoutingTable.lookupRoute header.dst = some advEntry)
    (takesUp : TakesUp heard sender header advEntry) :
    Sane remote heard told node (node.changedMetric now sender header advEntry) := by
  have taken := sound.sane_sameMetric now advFound takesUp
  have refiled := refiled_changedMetric taken.sound (sound.adv _ _ advFound).routed advFound
  refine taken.trans ⟨taken.sound.refiled refiled, refiled.succeeds fun dst absent present => ?_⟩
  have absentBefore : (node.sameMetric now sender header advEntry).routingTable.lookupRoute dst = none := by
    change (update _ node.routingTable _).lookupRoute dst = none at absent
    rw [lookupRoute_update] at absent
    split at absent
    case isTrue => exact map_eq_none_iff.mp absent
    case isFalse => exact absent
  exact present.resolve_left fun mainPresent => mainPresent absentBefore

/-- An entry leaves the main table for good, and one of the advertised table takes its place. -/
theorem Sound.sane_retire (isRemote : remote dst) {mainTable advTable : RoutingTable}
    (mainNow : ∀ other, mainTable.lookupRoute other = if dst = other then none else node.routingTable.lookupRoute other)
    (advNow : ∀ other, other ≠ dst -> advTable.lookupRoute other = node.advRoutingTable.lookupRoute other)
    (advHere : ∃ rt, advTable.lookupRoute dst = some rt ∧ (node.advRoutingTable.lookupRoute dst = some rt ∨
      0 < rt.hops ∧ Routed node.routes node.nextRoute dst rt)) :
    Sane remote heard told node { node with routingTable := mainTable, advRoutingTable := advTable } := by
  obtain ⟨here, isHere, from'⟩ := advHere
  have refiled : Refiled remote heard node { node with routingTable := mainTable, advRoutingTable := advTable } := by
    refine ⟨rfl, rfl, fun other notRemote => ?_, fun other rt found => .inl ?_, fun other rt found => ?_⟩
    · change mainTable.lookupRoute other = _
      rw [mainNow, if_neg]
      rintro rfl
      exact notRemote isRemote
    · change mainTable.lookupRoute other = _ at found
      rw [mainNow] at found
      split at found
      case isTrue => cases found
      case isFalse => exact found
    · change advTable.lookupRoute other = _ at found
      by_cases same : other = dst
      · subst same
        cases isHere.symm.trans found
        obtain before | ⟨pos, routed⟩ := from'
        · exact .inl before
        · exact .inr (.inr ⟨(mainNow other).trans (if_pos rfl), isRemote, pos, routed⟩)
      · exact .inl ((advNow other same).symm.trans found)
  refine ⟨sound.refiled refiled, refiled.succeeds fun other absent before => ?_⟩
  by_cases same : other = dst
  · subst same
    simp [isHere]
  · rw [advNow other same]
    refine before.resolve_left fun mainPresent => mainPresent ?_
    rwa [mainNow, if_neg (Ne.symm same)] at absent

theorem Sound.sane_unreachable (isRemote : remote dst) (pos : 0 < rt.hops)
    (routed : Routed node.routes node.nextRoute dst rt) : Sane remote heard told node (node.unreachable (dst, rt)) := by
  have filed :
    ({ rt with seqNo := rt.seqNo + 1, entriesChanged := true } :
    RoutingTableEntry).getDestination node.routes = dst :=
    routed.destination
  refine sound.sane_retire isRemote (fun other => ?_) (fun other ne => ?_)
    ⟨_, lookupRoute_addRoute.trans (if_pos filed), ?_⟩
  · rw [lookupRoute_deleteRoute, filed]
  · rw [lookupRoute_addRoute, filed, if_neg (Ne.symm ne)]
  · cases node.advRoutingTable.lookupRoute dst with
    | none => exact .inr ⟨pos, routed.created, routed.destination⟩
    | some old => exact .inl rfl

/-- A destination unreachable through another node takes along what is routed through it. -/
theorem Sound.sane_brokenLink (isRemote : remote header.dst)
    (advFound : node.advRoutingTable.lookupRoute header.dst = some advEntry) :
    Sane remote heard told node (node.brokenLink header advEntry) := by
  have pending := sound.adv _ _ advFound
  let broken := { advEntry with seqNo := header.dstSeqno, entriesChanged := true }
  have filed : broken.getDestination node.routes = header.dst := pending.routed.destination
  have first : Sane remote heard told node { node with
      routingTable := node.routingTable.deleteRoute header.dst
      advRoutingTable := node.advRoutingTable.update node.routes
        { advEntry with seqNo := header.dstSeqno, entriesChanged := true } } := by
    have here : (node.advRoutingTable.update node.routes
        { advEntry with seqNo := header.dstSeqno, entriesChanged := true }).lookupRoute header.dst =
          some { advEntry with seqNo := header.dstSeqno, entriesChanged := true } := by
      rw [lookupRoute_update, if_pos filed, advFound, map_some]
    refine sound.sane_retire isRemote (fun other => lookupRoute_deleteRoute) (fun other ne => ?_) ⟨_, here, .inr ?_⟩
    · rw [lookupRoute_update, filed, if_neg (Ne.symm ne)]
    · exact ⟨pending.positive, pending.routed.created, pending.routed.destination⟩
  have through : ∀ i ∈ node.routingTable.getListOfDestinationWithNextHop node.routes header.dst,
      remote i.1 ∧ 0 < i.2.hops ∧ Routed node.routes node.nextRoute i.1 i.2 := by
    intro i mem
    obtain ⟨found, nextHop⟩ := mem_getListOfDestinationWithNextHop mem
    obtain own | route := sound.main i.1 i.2 found
    · exact absurd (own.itself.symm.trans nextHop ▸ isRemote) own.notRemote
    · exact ⟨route.remote, route.positive, sound.routed i.1 i.2 found⟩
  rw [brokenLink]
  generalize node.routingTable.getListOfDestinationWithNextHop node.routes header.dst = dsts at through ⊢
  refine (foldlRecOn dsts unreachable (motive := fun next =>
    Sane remote heard told node next ∧ next.routes = node.routes ∧ next.nextRoute = node.nextRoute)
    ⟨first, rfl, rfl⟩ ?_).1
  rintro next ⟨sane, routes, nextRoute⟩ i mem
  obtain ⟨remoteHere, pos, routed⟩ := through i mem
  rw [← routes, ← nextRoute] at routed
  exact ⟨sane.trans (sane.sound.sane_unreachable remoteHere pos routed), routes, nextRoute⟩

theorem Sound.sane_compareAdvertised (isRemote : remote header.dst)
    (isHeard : heard sender header) (pos : 0 < header.hopCount)
    (mainPresent : node.routingTable.lookupRoute header.dst ≠ none)
    (advFound : node.advRoutingTable.lookupRoute header.dst = some advEntry) :
    Sane remote heard told node (node.compareAdvertised now sender header advEntry) := by
  have deleted := sound.sane_forceDelete header.dst
  rw [compareAdvertised]
  split
  case isTrue finite =>
    split
    case isTrue newer =>
      have takesUp : TakesUp heard sender header advEntry := ⟨isHeard, finite, pos, .inl newer⟩
      split
      case isTrue => exact deleted.trans (deleted.sound.sane_changedMetric now advFound takesUp)
      case isFalse => exact deleted.trans (deleted.sound.sane_sameMetric now advFound takesUp)
    case isFalse =>
      split
      case isTrue same =>
        split
        case isTrue shorter =>
          have takesUp : TakesUp heard sender header advEntry :=
            ⟨isHeard, finite, pos, .inr ⟨same.symm, Nat.le_of_lt shorter⟩⟩
          exact deleted.trans (deleted.sound.sane_changedMetric now advFound takesUp)
        case isFalse => exact sound.sane_sameOrWorse advFound mainPresent
      case isFalse => exact sound.sane_discard mainPresent
  case isFalse =>
    split
    case isTrue => exact sound.sane_brokenLink isRemote advFound
    case isFalse => exact sound.sane_discard mainPresent

theorem Sound.sane_compareWith (isRemote : remote header.dst)
    (isHeard : heard sender header) (pos : 0 < header.hopCount)
    (found : node.routingTable.lookupRoute header.dst = some fwdEntry) :
    Sane remote heard told node (node.compareWith now sender header fwdEntry) := by
  obtain ⟨advertised, advFound⟩ := sound.sane_advertise isRemote found
  refine advertised.trans (advertised.sound.sane_compareAdvertised isRemote isHeard pos ?_ advFound)
  exact found ▸ some_ne_none _

theorem Sound.sane_receivedNewRoute (now : Nat) (isRemote : remote header.dst)
    (isHeard : heard sender header) (finite : header.dstSeqno % 2 ≠ 1) (pos : 0 < header.hopCount)
    (mainAbsent : node.routingTable.lookupRoute header.dst = none)
    (advAbsent : node.advRoutingTable.lookupRoute header.dst = none)
    (newer : ∀ other, told other -> other.dst = header.dst -> other.dstSeqno % 2 ≠ 1 ->
      other.dstSeqno < header.dstSeqno) :
    Sane remote heard told node (node.receivedNewRoute now sender header) := by
  have mainNow : ∀ dst, (node.receivedNewRoute now sender header).routingTable.lookupRoute dst =
      if header.dst = dst then some (newEntry now node header) else node.routingTable.lookupRoute dst :=
    lookupRoute_addRoute_newEntry now sender mainAbsent
  have advNow : ∀ dst, (node.receivedNewRoute now sender header).advRoutingTable.lookupRoute dst =
      if header.dst = dst then some (newEntry now node header) else node.advRoutingTable.lookupRoute dst :=
    lookupRoute_addRoute_newEntry now sender advAbsent
  have others : ∀ dst, header.dst ≠ dst ->
      (node.receivedNewRoute now sender header).routingTable.lookupRoute dst = node.routingTable.lookupRoute dst :=
    fun dst ne => (mainNow dst).trans (if_neg ne)
  refine ⟨sound.receivedNewRoute now isRemote isHeard finite pos mainAbsent advAbsent newer, fun dst notRemote => ?_,
    fun dst rt rt' found found' => ?_, fun dst absent before => ?_, fun dst absent present => ?_⟩
  · apply others
    rintro rfl
    exact notRemote isRemote
  · by_cases same : header.dst = dst
    · subst same
      cases mainAbsent.symm.trans found
    · cases found.symm.trans ((others dst same).symm.trans found')
      exact Nat.le_refl _
  · by_cases same : header.dst = dst
    · rw [mainNow, if_pos same] at absent
      cases absent
    · rw [advNow, if_neg same]
      exact before.resolve_left fun mainPresent => mainPresent ((others dst same).symm.trans absent)
  · by_cases same : header.dst = dst
    · subst same
      exact absurd advAbsent present
    · exact (others dst same).trans absent

/-- A header as nodes send them: for a node, and never without a hop. -/
structure Proper (remote : Ipv4Address -> Prop) (host : Host) (header : DsdvHeader) : Prop where
  positive : 0 < header.hopCount
  named : host.isLocal header.dst ∨ remote header.dst

/-- What a header makes known for the first time is advertised as well, and newer than all the node
has told of the destination. -/
def LearnsFresh (told : DsdvHeader -> Prop) (host : Host) (node : RoutingProtocol) (header : DsdvHeader) : Prop :=
  ¬host.isLocal header.dst -> node.routingTable.lookupRoute header.dst = none -> header.dstSeqno % 2 ≠ 1 ->
    node.advRoutingTable.lookupRoute header.dst = none ∧
      ∀ other, told other -> other.dst = header.dst -> other.dstSeqno % 2 ≠ 1 -> other.dstSeqno < header.dstSeqno

/-- The same of each header of an update, in the state it is read in. -/
def AllFresh (told : DsdvHeader -> Prop) (host : Host) (now : Nat) (sender : Ipv4Address) :
    RoutingProtocol -> List DsdvHeader -> Prop
  | _, [] => True
  | node, header :: headers =>
    LearnsFresh told host node header ∧ AllFresh told host now sender (recvHeader host now sender node header) headers

theorem Sound.sane_recvHeader (proper : Proper remote host header)
    (isHeard : heard sender header) (fresh : LearnsFresh told host node header) :
    Sane remote heard told node (recvHeader host now sender node header) := by
  rw [recvHeader]
  split
  case isTrue => exact ⟨sound, .refl node⟩
  case isFalse notLocal =>
    have isRemote := proper.named.resolve_left notLocal
    split
    case h_1 absent =>
      split
      case isTrue finite =>
        obtain ⟨advAbsent, newer⟩ := fresh notLocal absent finite
        exact sound.sane_receivedNewRoute now isRemote isHeard finite proper.positive absent advAbsent newer
      case isFalse => exact ⟨sound, .refl node⟩
    case h_2 fwdEntry found => exact sound.sane_compareWith isRemote isHeard proper.positive found

theorem Sound.sane_recvHeaders {headers : List DsdvHeader}
    (proper : ∀ header ∈ headers, Proper remote host header) (isHeard : ∀ header ∈ headers, heard sender header)
    (fresh : AllFresh told host now sender node headers) :
    Sane remote heard told node (headers.foldl (recvHeader host now sender) node) := by
  induction headers generalizing node with
  | nil => exact ⟨sound, .refl node⟩
  | cons header headers ih =>
    have first : Sane remote heard told node (recvHeader host now sender node header) :=
      sound.sane_recvHeader (proper header mem_cons_self) (isHeard header mem_cons_self) fresh.1
    refine first.trans (ih first.sound ?_ ?_ fresh.2)
    · exact fun header mem => proper header (mem_cons_of_mem _ mem)
    · exact fun header mem => isHeard header (mem_cons_of_mem _ mem)

end

end RoutingProtocol

end Ns3.Dsdv

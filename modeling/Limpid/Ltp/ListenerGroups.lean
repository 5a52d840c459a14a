import Mathlib.Data.List.Flatten
import Mathlib.Data.List.Perm.Subperm
import Limpid.Dsl.Negation
import Limpid.Ltp.Listener

/-!
# Listener groups that are accepted are built

A group that `validate_listener_groups` accepts has one limit, and no node id and no public key
twice (`checkGroup_ok`), in whatever order the peers of its members come.  `from_members` needs no
more (`addMembers_eq`), of a group or of a part of it: the inputs that are started are some of the
declared ones.

The validation and the start of the inputs read the properties separately.  What both read is the
same (`listenerSpec_of_fromProperties`), so what the validation has checked holds of the inputs that
are started.
-/

namespace Limpid.Ltp

open Dsl (Base64 Property Runtime binary64)
open Dsl.Props (Formats)

/-! ## Lists -/

section Lists

variable {α β ε : Type}

theorem Subperm.filterMap {l l' : List α} (f : α → Option β) (h : l.Subperm l') :
    (l.filterMap f).Subperm (l'.filterMap f) := by
  obtain ⟨l₀, hperm, hsub⟩ := h
  exact ⟨l₀.filterMap f, hperm.filterMap f, hsub.filterMap f⟩

theorem Subperm.flatMap {l l' : List α} (f : α → List β) (h : l.Subperm l') :
    (l.flatMap f).Subperm (l'.flatMap f) := by
  obtain ⟨l₀, hperm, hsub⟩ := h
  exact ⟨l₀.flatMap f, hperm.flatMap_right f, hsub.flatMap f⟩

theorem Subperm.nodup {l l' : List α} (h : l.Subperm l') (hnodup : l'.Nodup) : l.Nodup := by
  obtain ⟨l₀, hperm, hsub⟩ := h
  exact hperm.nodup_iff.mp (hnodup.sublist hsub)

theorem eq_filterMap_of_mapM {f : α → Except ε β} {l : List α} {out : List β}
    (h : l.mapM f = .ok out) : out = l.filterMap fun a => (f a).toOption := by
  induction l generalizing out with
  | nil => exact (Except.ok.inj h).symm
  | cons a l ih =>
      rw [List.mapM_cons] at h
      cases ha : f a with
      | error e => rw [ha] at h; exact nomatch h
      | ok b =>
          cases hl : l.mapM f with
          | error e => rw [ha, hl] at h; exact nomatch h
          | ok rest =>
              rw [ha, hl] at h
              rw [← Except.ok.inj h, List.filterMap_cons, ha, ih hl]
              rfl

/-- Keys that are bytes are compared as lists. -/
theorem lookup_bytes (key : Bytes) (entries : List (Bytes × α)) :
    entries.lookup key = @List.lookup Bytes α instBEqOfDecidableEq key entries := by
  rw [lawful_beq_subsingleton List.instBEq instBEqOfDecidableEq]

/-- What occurs once in all the parts is in one part. -/
theorem filter_of_nodup_flatMap {f : α → List β} {l : List α} (h : (l.flatMap f).Nodup) {a : α}
    (ha : a ∈ l) {b : β} (hb : b ∈ f a) [∀ other, Decidable (b ∈ f other)] :
    l.filter (fun other => b ∈ f other) = [a] := by
  obtain ⟨before, after, rfl⟩ := List.append_of_mem ha
  rw [List.flatMap_append, List.flatMap_cons] at h
  have hdisjoint := List.disjoint_of_nodup_append h
  have hdisjoint' := List.disjoint_of_nodup_append (List.Nodup.of_append_right h)
  have hbefore : before.filter (fun other => b ∈ f other) = [] := by
    refine List.filter_eq_nil_iff.mpr fun other hother hmem => ?_
    exact hdisjoint (List.mem_flatMap.mpr ⟨other, hother, of_decide_eq_true hmem⟩)
      (List.mem_append_left _ hb)
  have hafter : after.filter (fun other => b ∈ f other) = [] := by
    refine List.filter_eq_nil_iff.mpr fun other hother hmem => ?_
    exact hdisjoint' hb (List.mem_flatMap.mpr ⟨other, hother, of_decide_eq_true hmem⟩)
  have ha : decide (b ∈ f a) = true := decide_eq_true hb
  rw [List.filter_append, List.filter_cons, if_pos ha, hbefore, hafter]
  rfl

end Lists

/-! ## Groups -/

section Groups

variable {α : Type} {bindAddr : α → String}

/-- The groups before they are sorted. -/
theorem lookup_groups (items : List α) (bind : String) :
    (items.foldl (fun groups item => Entries.insert (bindAddr item)
        ((groups.lookup (bindAddr item)).getD [] ++ [item]) groups)
          ([] : List (String × List α))).lookup bind =
      if items.filter (bindAddr · = bind) = [] then none
      else some (items.filter (bindAddr · = bind)) := by
  induction items using List.reverseRecOn with
  | nil => rfl
  | append_singleton items item ih =>
      rw [List.foldl_append, List.foldl_cons, List.foldl_nil, Entries.lookup_insert,
        List.filter_append]
      by_cases h : bind = bindAddr item
      · subst h
        rw [if_pos rfl, ih]
        simp only [List.filter_cons, List.filter_nil, decide_true, if_true, List.append_eq_nil_iff,
          List.cons_ne_nil, and_false, if_false]
        split
        · next hnil => rw [hnil]; rfl
        · rfl
      · have hne : ¬bindAddr item = bind := fun heq => h heq.symm
        rw [if_neg h, ih]
        simp [hne]

theorem nodup_groups (items : List α) :
    (Entries.keys (items.foldl (fun groups item => Entries.insert (bindAddr item)
        ((groups.lookup (bindAddr item)).getD [] ++ [item]) groups)
          ([] : List (String × List α)))).Nodup := by
  induction items using List.reverseRecOn with
  | nil => exact List.nodup_nil
  | append_singleton items item ih =>
      rw [List.foldl_append, List.foldl_cons, List.foldl_nil]
      exact Entries.nodup_insert ih _ _

theorem mem_iff_lookup {K V : Type} [DecidableEq K] {entries : List (K × V)}
    (h : (Entries.keys entries).Nodup) {key : K} {value : V} :
    (key, value) ∈ entries ↔ entries.lookup key = some value := by
  rw [← Entries.last_of_nodup h]
  constructor
  · intro hmem
    cases hlast : Entries.last key entries with
    | none =>
        exact absurd (List.mem_map_of_mem hmem) (Entries.last_eq_none_iff.mp hlast)
    | some other => rw [Entries.eq_of_mem h (Entries.mem_of_last hlast) hmem]
  · exact Entries.mem_of_last

/-- **The groups** are the items of each bind string that occurs. -/
theorem mem_groupByBind {items : List α} {bind : String} {group : List α} :
    (bind, group) ∈ groupByBind bindAddr items ↔
      group ≠ [] ∧ group = items.filter (bindAddr · = bind) := by
  rw [groupByBind, List.mem_insertionSort, mem_iff_lookup (nodup_groups items), lookup_groups]
  split
  · next hnil =>
    rw [hnil]
    exact ⟨fun h => absurd h (Option.some_ne_none _).symm, fun h => absurd h.2 h.1⟩
  · next hne =>
    rw [Option.some_inj]
    exact ⟨fun h => ⟨h ▸ hne, h.symm⟩, fun h => h.2.symm⟩

end Groups

/-! ## What is accepted -/

section Accepted

variable {order : PeerRegistry → List (Bytes × String)} {bindAddr name : String}

theorem checkPeers_ok {peers : List (Bytes × String)} {declared next : Declared}
    (hkeys : (Entries.keys declared.publicKeys).Nodup)
    (h : peers.foldlM (checkPeer bindAddr name) declared = .ok next) :
    Entries.keys next.publicKeys = Entries.keys declared.publicKeys ++ Entries.keys peers ∧
      (Entries.keys next.publicKeys).Nodup := by
  induction peers generalizing declared with
  | nil =>
      obtain rfl := Except.ok.inj h
      exact ⟨(List.append_nil _).symm, hkeys⟩
  | cons peer peers ih =>
      obtain ⟨spki, nodeId⟩ := peer
      rw [List.foldlM_cons, checkPeer, lookup_bytes] at h
      cases hnode : declared.nodeIds.lookup nodeId with
      | some previous => rw [hnode] at h; exact nomatch h
      | none =>
          cases hspki : @List.lookup Bytes String instBEqOfDecidableEq spki declared.publicKeys with
          | some previous => rw [hnode, hspki] at h; exact nomatch h
          | none =>
              rw [hnode, hspki] at h
              have hnew := Entries.lookup_eq_none_iff.mp hspki
              obtain ⟨hnext, hnodup⟩ := ih (Entries.nodup_insert hkeys spki name) h
              refine ⟨?_, hnodup⟩
              rw [hnext, Entries.keys_insert, if_neg hnew, List.append_assoc]
              rfl

theorem checkMembers_ok {first : ListenerSpec} {members : List ListenerSpec}
    {declared next : Declared} (hkeys : (Entries.keys declared.publicKeys).Nodup)
    (h : members.foldlM (checkMember order bindAddr first) declared = .ok next) :
    Entries.keys next.publicKeys = Entries.keys declared.publicKeys ++
        members.flatMap (fun member => Entries.keys (order member.peers)) ∧
      (Entries.keys next.publicKeys).Nodup ∧
        ∀ member ∈ members, member.maxConnections = first.maxConnections := by
  induction members generalizing declared with
  | nil =>
      obtain rfl := Except.ok.inj h
      exact ⟨(List.append_nil _).symm, hkeys, fun _ hmem => absurd hmem List.not_mem_nil⟩
  | cons member members ih =>
      rw [List.foldlM_cons, checkMember] at h
      by_cases hmax : member.maxConnections = first.maxConnections
      · rw [if_neg (not_not.mpr hmax)] at h
        cases hpeers : (order member.peers).foldlM (checkPeer bindAddr member.name) declared with
        | error e => rw [hpeers] at h; exact nomatch h
        | ok middle =>
            rw [hpeers] at h
            obtain ⟨hmiddle, hnodup⟩ := checkPeers_ok hkeys hpeers
            obtain ⟨hnext, hnodup', hrest⟩ := ih hnodup h
            refine ⟨?_, hnodup', List.forall_mem_cons.mpr ⟨hmax, hrest⟩⟩
            rw [hnext, hmiddle, List.flatMap_cons, List.append_assoc]
      · rw [if_pos hmax] at h
        exact nomatch h

/-- **An accepted group** has one limit and no public key twice. -/
theorem checkGroup_ok {group : List ListenerSpec}
    (h : checkGroup order (bindAddr, group) = .ok ()) :
    (group.flatMap fun member => Entries.keys (order member.peers)).Nodup ∧
      ∀ member ∈ group, ∀ other ∈ group, member.maxConnections = other.maxConnections := by
  cases group with
  | nil => exact ⟨List.nodup_nil, fun _ hmem => absurd hmem List.not_mem_nil⟩
  | cons first rest =>
      rw [checkGroup] at h
      cases hall : (first :: rest).foldlM (checkMember order bindAddr first) ⟨[], []⟩ with
      | error e => rw [hall] at h; exact nomatch h
      | ok declared =>
          have hempty : (Entries.keys (⟨[], []⟩ : Declared).publicKeys).Nodup := List.nodup_nil
          obtain ⟨hkeys, hnodup, hmax⟩ := checkMembers_ok hempty hall
          rw [hkeys, Entries.keys_nil, List.nil_append] at hnodup
          exact ⟨hnodup, fun member hmem other hother =>
            (hmax member hmem).trans (hmax other hother).symm⟩

end Accepted

/-! ## What is built -/

section Built

variable {Key Stats Metrics Sender : Type} {order : PeerRegistry → List (Bytes × String)}

/-- The routes of a member. -/
def routesOf (order : PeerRegistry → List (Bytes × String))
    (member : LtpInput Key Stats Metrics × Sender) : Routes Stats Metrics Sender :=
  (order member.1.peers).map fun peer => (peer.1, ⟨peer.2, logicalInput member⟩)

theorem keys_routesOf (member : LtpInput Key Stats Metrics × Sender) :
    Entries.keys (routesOf order member) = Entries.keys (order member.1.peers) := by
  rw [routesOf, Entries.keys, List.map_map]
  rfl

theorem addRoutes_eq {input : LogicalInputContext Stats Metrics Sender}
    {peers : List (Bytes × String)} {routes : Routes Stats Metrics Sender}
    (h : (Entries.keys routes ++ Entries.keys peers).Nodup) :
    peers.foldlM (addRoute input) routes =
      .ok (routes ++ peers.map fun peer => (peer.1, ⟨peer.2, input⟩)) := by
  induction peers generalizing routes with
  | nil => rw [List.map_nil, List.append_nil]; rfl
  | cons peer peers ih =>
      rw [Entries.keys_cons, List.nodup_middle, List.nodup_cons, List.mem_append, not_or] at h
      obtain ⟨⟨hnew, hnew'⟩, hrest⟩ := h
      have hround : addRoute input routes peer = .ok (routes ++ [(peer.1, ⟨peer.2, input⟩)]) := by
        rw [addRoute, lookup_bytes, Entries.lookup_eq_none_iff.mpr hnew,
          Entries.insert_of_notMem hnew]
        rfl
      have hnext : (Entries.keys (routes ++ [(peer.1, (⟨peer.2, input⟩ : PeerRoute _ _ _))]) ++
          Entries.keys peers).Nodup := by
        rw [Entries.keys_append, Entries.keys_cons, Entries.keys_nil, List.append_assoc,
          List.singleton_append, List.nodup_middle, List.nodup_cons, List.mem_append, not_or]
        exact ⟨⟨hnew, hnew'⟩, hrest⟩
      rw [List.foldlM_cons, hround]
      calc peers.foldlM (addRoute input) (routes ++ [(peer.1, ⟨peer.2, input⟩)])
          = .ok ((routes ++ [(peer.1, ⟨peer.2, input⟩)]) ++
              peers.map fun peer => (peer.1, ⟨peer.2, input⟩)) := ih hnext
        _ = .ok (routes ++ (peer :: peers).map fun peer => (peer.1, ⟨peer.2, input⟩)) := by
          rw [List.append_assoc, List.singleton_append, List.map_cons]

theorem addMembers_eq {bindAddr : String} {maxConnections : ℕ}
    {members : List (LtpInput Key Stats Metrics × Sender)} {names : List String}
    {routes : Routes Stats Metrics Sender}
    (hbind : ∀ member ∈ members, member.1.bindAddr = bindAddr)
    (hmax : ∀ member ∈ members, member.1.maxConnections = maxConnections)
    (h : (Entries.keys routes ++
      members.flatMap fun member => Entries.keys (order member.1.peers)).Nodup) :
    members.foldlM (addMember order bindAddr maxConnections) (names, routes) =
      .ok (names ++ members.map (·.1.name), routes ++ members.flatMap (routesOf order)) := by
  induction members generalizing names routes with
  | nil => rw [List.map_nil, List.flatMap_nil, List.append_nil, List.append_nil]; rfl
  | cons member members ih =>
      obtain ⟨hfirst, hbind⟩ := List.forall_mem_cons.mp hbind
      obtain ⟨hlimit, hmax⟩ := List.forall_mem_cons.mp hmax
      rw [List.flatMap_cons, ← List.append_assoc] at h
      have hround : addMember order bindAddr maxConnections (names, routes) member =
          .ok (names ++ [member.1.name], routes ++ routesOf order member) := by
        rw [addMember, if_neg (not_not.mpr hfirst), if_neg (not_not.mpr hlimit),
          addRoutes_eq (List.Nodup.of_append_left h)]
        rfl
      have hnext : (Entries.keys (routes ++ routesOf order member) ++
          members.flatMap fun member => Entries.keys (order member.1.peers)).Nodup := by
        rwa [Entries.keys_append, keys_routesOf]
      rw [List.foldlM_cons, hround]
      calc members.foldlM (addMember order bindAddr maxConnections)
              (names ++ [member.1.name], routes ++ routesOf order member)
          = .ok ((names ++ [member.1.name]) ++ members.map (·.1.name),
              (routes ++ routesOf order member) ++ members.flatMap (routesOf order)) :=
            ih hbind hmax hnext
        _ = .ok (names ++ (member :: members).map (·.1.name),
              routes ++ (member :: members).flatMap (routesOf order)) := by
          rw [List.append_assoc, List.append_assoc, List.singleton_append, List.map_cons,
            List.flatMap_cons]

end Built

/-! ## Groups that are accepted are built -/

section Groups

variable {rt : Runtime} {formats : Formats} {base64 : Base64}
  {Key Stats Metrics Sender Acceptor Abort : Type} {ctx : BuildContext Key Stats Metrics}
  {order order' : PeerRegistry → List (Bytes × String)}

/-- An input as the validation sees it. -/
def specOf (input : LtpInput Key Stats Metrics) : ListenerSpec :=
  ⟨input.name, input.bindAddr, input.maxConnections, input.peers⟩

theorem listenerSpec_of_fromProperties {name : String} {properties : List Property}
    {input : LtpInput Key Stats Metrics}
    (h : LtpInput.fromProperties rt formats base64 ctx name properties = .ok input) :
    listenerSpec rt formats base64 (name, properties) = .ok (specOf input) := by
  unfold LtpInput.fromProperties at h
  unfold listenerSpec
  cases hnodeId : ctx.ltpNodeId with
  | none => rw [hnodeId] at h; exact nomatch h
  | some nodeId =>
  cases hnodeKey : ctx.ltpNodeKey with
  | none => rw [hnodeId, hnodeKey] at h; exact nomatch h
  | some nodeKey =>
  rw [hnodeId, hnodeKey] at h
  cases hpeers : parsePeers base64 name properties with
  | error e => rw [hpeers] at h; exact nomatch h
  | ok peers =>
  cases hmetrics : ctx.ltpMetrics with
  | none => rw [hpeers, hmetrics] at h; exact nomatch h
  | some ltpMetrics =>
  rw [hpeers, hmetrics] at h
  cases hhops : Dsl.Props.getPositiveInt properties "max_hops" with
  | error e => rw [hhops] at h; exact nomatch h
  | ok hops =>
  rw [hhops] at h
  simp only [bind, Except.bind, pure, Except.pure] at h ⊢
  split at h
  · exact nomatch h
  cases hlimit : Dsl.Props.getPositiveInt properties "max_connections" with
  | error e => rw [hlimit] at h; exact nomatch h
  | ok limit =>
  rw [hlimit] at h
  dsimp only at h
  cases hregister : ctx.register name with
  | error e => rw [hregister] at h; exact nomatch h
  | ok metrics =>
  rw [hregister] at h
  rw [hpeers, ← Except.ok.inj h]
  rfl

/-- What the validation has checked of the members of a group that are started. -/
theorem group_ok {inputs : List (String × List Property)}
    (hvalid : validateListenerGroups rt formats base64 order inputs = .ok ())
    {started : List ((String × List Property) × LtpInput Key Stats Metrics × Sender)}
    (hdeclared : (started.map Prod.fst).Subperm inputs)
    (hstarted : ∀ entry ∈ started,
      LtpInput.fromProperties rt formats base64 ctx entry.1.1 entry.1.2 = .ok entry.2.1)
    {bind : String} {group : List (LtpInput Key Stats Metrics × Sender)}
    (hgroup : (bind, group) ∈ groupByBind (·.1.bindAddr) (started.map Prod.snd)) :
    (group.flatMap fun member => Entries.keys (order member.1.peers)).Nodup ∧
      ∀ member ∈ group, ∀ other ∈ group,
        member.1.maxConnections = other.1.maxConnections := by
  obtain ⟨hne, hfilter⟩ := mem_groupByBind.mp hgroup
  unfold validateListenerGroups at hvalid
  cases hspecs : inputs.mapM (listenerSpec rt formats base64) with
  | error e => rw [hspecs] at hvalid; exact nomatch hvalid
  | ok specs =>
  rw [hspecs] at hvalid
  obtain ⟨hgroups, -⟩ := Except.bind_eq_ok_iff.mp hvalid
  rw [checkAll_eq_ok_iff] at hgroups
  set sorted := specs.insertionSort (·.name ≤ ·.name) with hsorted
  -- the members that are started are among the specs
  have hmembers : (started.map fun entry => specOf entry.2.1).Subperm sorted := by
    have hsub := Subperm.filterMap
      (fun input => (listenerSpec rt formats base64 input).toOption) hdeclared
    rw [← eq_filterMap_of_mapM hspecs, List.filterMap_map] at hsub
    have hmap : started.filterMap
        ((fun input => (listenerSpec rt formats base64 input).toOption) ∘ Prod.fst) =
          started.map fun entry => specOf entry.2.1 := by
      rw [← List.filterMap_eq_map]
      refine List.filterMap_congr fun entry hentry => ?_
      rw [Function.comp_apply, listenerSpec_of_fromProperties (hstarted entry hentry)]
      rfl
    rw [hmap] at hsub
    exact hsub.trans (List.perm_insertionSort _ specs).symm.subperm
  have hpart : (group.map fun member => specOf member.1).Subperm
      (sorted.filter (·.bindAddr = bind)) := by
    have hsub := hmembers.filter (·.bindAddr = bind)
    rw [List.filter_map] at hsub
    rw [hfilter, List.filter_map, List.map_map]
    exact hsub
  have hsome : sorted.filter (·.bindAddr = bind) ≠ [] := by
    obtain ⟨member, hmember⟩ := List.exists_mem_of_ne_nil _ hne
    exact List.ne_nil_of_mem (hpart.subset (List.mem_map_of_mem hmember))
  obtain ⟨hnodup, hmax⟩ := checkGroup_ok
    (hgroups _ (mem_groupByBind.mpr ⟨hsome, rfl⟩ :
      (bind, sorted.filter (·.bindAddr = bind)) ∈ groupByBind (·.bindAddr) sorted))
  refine ⟨?_, fun member hmember other hother => ?_⟩
  · have hkeys := Subperm.nodup
      (Subperm.flatMap (fun spec => Entries.keys (order spec.peers)) hpart) hnodup
    rwa [List.flatMap_map] at hkeys
  · exact hmax _ (hpart.subset (List.mem_map_of_mem hmember)) _
      (hpart.subset (List.mem_map_of_mem hother))

/-- **Listener groups that are accepted are built.**  Of declared inputs that are accepted some are
started, and these are grouped by their bind strings.  Then only the acceptor can fail to be built
for a group, its routes are the peers of its members, each of them once, and the peers that it
accepts are routed to the one member that declares them. -/
theorem groups_build (horder : ∀ peers, (order peers).Perm peers.nodeBySpki)
    (horder' : ∀ peers, (order' peers).Perm peers.nodeBySpki)
    (buildRpkAcceptor : Key → PeerRegistry → Metrics → Except String Acceptor)
    {inputs : List (String × List Property)}
    (hvalid : validateListenerGroups rt formats base64 order inputs = .ok ())
    {started : List ((String × List Property) × LtpInput Key Stats Metrics × Sender)}
    (hdeclared : (started.map Prod.fst).Subperm inputs)
    (hstarted : ∀ entry ∈ started,
      LtpInput.fromProperties rt formats base64 ctx entry.1.1 entry.1.2 = .ok entry.2.1)
    {addr : String} {group : List (LtpInput Key Stats Metrics × Sender)}
    (hgroup : (addr, group) ∈ groupByBind (·.1.bindAddr) (started.map Prod.snd)) :
    ∃ first ∈ group, ∃ routes : Routes Stats Metrics Sender,
      (fromMembers order' buildRpkAcceptor group :
          Except String (SharedListenerGroup Acceptor Stats Metrics Sender Abort)) =
        (buildRpkAcceptor first.1.nodeKey (peersOf routes) first.1.ltpMetrics).map (fun acceptor =>
          ⟨addr, (group.map (·.1.name)).insertionSort (· ≤ ·), acceptor, routes,
            first.1.maxConnections, first.1.ltpMetrics, .empty⟩) ∧
      (Entries.keys routes).Nodup ∧
      routes.Perm (group.flatMap fun member =>
        member.1.peers.nodeBySpki.map fun peer => (peer.1, ⟨peer.2, logicalInput member⟩)) ∧
      ∀ spki ∈ Entries.keys (peersOf routes).nodeBySpki, ∃ member nodeId,
        group.filter (fun other => spki ∈ Entries.keys other.1.peers.nodeBySpki) = [member] ∧
          (spki, nodeId) ∈ member.1.peers.nodeBySpki ∧
            routes.lookup spki = some ⟨nodeId, logicalInput member⟩ := by
  obtain ⟨hnodup, hmax⟩ := group_ok hvalid hdeclared hstarted hgroup
  obtain ⟨hne, hfilter⟩ := mem_groupByBind.mp hgroup
  have hbind : ∀ member ∈ group, member.1.bindAddr = addr := by
    intro member hmember
    rw [hfilter] at hmember
    simpa using (List.mem_filter.mp hmember).2
  obtain ⟨first, rest, hcons⟩ := List.exists_cons_of_ne_nil hne
  have hfirst : first ∈ group := hcons ▸ List.mem_cons_self
  -- the keys of the peers do not depend on the order in which they come
  have hdeclaredKeys : (group.flatMap fun member =>
      Entries.keys member.1.peers.nodeBySpki).Nodup :=
    (List.Perm.flatMap_left group fun member _ => (horder member.1.peers).map _).nodup_iff.mp hnodup
  have hkeys : (group.flatMap fun member => Entries.keys (order' member.1.peers)).Nodup :=
    (List.Perm.flatMap_left group fun member _ => (horder' member.1.peers).map _).nodup_iff.mpr
      hdeclaredKeys
  have hroutesKeys : Entries.keys (group.flatMap (routesOf order')) =
      group.flatMap fun member => Entries.keys (order' member.1.peers) := by
    rw [Entries.keys, List.map_flatMap]
    exact List.flatMap_congr fun member _ => keys_routesOf member
  have hroutes : (Entries.keys (group.flatMap (routesOf order'))).Nodup := hroutesKeys ▸ hkeys
  have hperm : (group.flatMap (routesOf order')).Perm (group.flatMap fun member =>
      member.1.peers.nodeBySpki.map fun peer => (peer.1, ⟨peer.2, logicalInput member⟩)) :=
    List.Perm.flatMap_left group fun member _ => (horder' member.1.peers).map _
  refine ⟨first, hfirst, group.flatMap (routesOf order'), ?_, hroutes, hperm,
    fun spki hspki => ?_⟩
  · have hmembers : group.foldlM (addMember order' first.1.bindAddr first.1.maxConnections)
        ([], []) = .ok ([] ++ group.map (·.1.name), [] ++ group.flatMap (routesOf order')) :=
      addMembers_eq (fun member hmember => (hbind member hmember).trans (hbind first hfirst).symm)
        (fun member hmember => hmax member hmember first hfirst) hkeys
    rw [← hbind first hfirst, hcons, fromMembers, ← hcons, hmembers]
    simp only [bind, Except.bind, List.nil_append]
    cases buildRpkAcceptor first.1.nodeKey (peersOf (group.flatMap (routesOf order')))
      first.1.ltpMetrics <;> rfl
  · have hpeers : spki ∈ Entries.keys (Entries.collect
        ((group.flatMap (routesOf order')).map fun entry => (entry.1, entry.2.expectedNodeId))) :=
      hspki
    rw [Entries.collect_of_nodup, Entries.keys, List.map_map] at hpeers
    · obtain ⟨⟨key, route⟩, hroute, rfl⟩ := List.mem_map.mp hpeers
      obtain ⟨member, hmember, hentry⟩ := List.mem_flatMap.mp (hperm.mem_iff.mp hroute)
      obtain ⟨⟨key', nodeId⟩, hpeer, heq⟩ := List.mem_map.mp hentry
      obtain ⟨rfl, rfl⟩ := Prod.mk.inj heq
      refine ⟨member, nodeId, filter_of_nodup_flatMap hdeclaredKeys hmember
        (List.mem_map_of_mem hpeer), hpeer, ?_⟩
      rw [lookup_bytes]
      exact (mem_iff_lookup hroutes).mp hroute
    · rw [Entries.keys, List.map_map]
      exact hroutes

end Groups

/-! ### Two inputs on one address -/

section Two

/-- The public key of 32 times a byte. -/
def spkiOf (b : UInt8) : Bytes := ed25519SpkiPrefix ++ List.replicate 32 b

/-- The decoding of two keys. -/
def twoKeys : Base64 where
  encode _ := ""
  decode
    | "MCowBQYDK2VwAyEAAAAAAAAAAAAAAAAAAAAAAAAAAAAAAAAAAAAAAAAAAAA=" => .ok (spkiOf 0)
    | "MCowBQYDK2VwAyEAAQEBAQEBAQEBAQEBAQEBAQEBAQEBAQEBAQEBAQEBAQE=" => .ok (spkiOf 1)
    | _ => .error "invalid"

/-- A `peer` block. -/
def peerBlock (nodeId pubkey : String) : Property :=
  .block "peer" [.keyValue "node_id" (.stringLit nodeId), .keyValue "pubkey" (.stringLit pubkey)]

/-- Two inputs on one address. -/
def twoInputs : List (String × List Property) :=
  [("b", [peerBlock "west" "MCowBQYDK2VwAyEAAQEBAQEBAQEBAQEBAQEBAQEBAQEBAQEBAQEBAQEBAQE="]),
    ("a", [peerBlock "east" "MCowBQYDK2VwAyEAAAAAAAAAAAAAAAAAAAAAAAAAAAAAAAAAAAAAAAAAAAA="])]

/-- No expression is printed. -/
def noFormats : Formats := ⟨fun _ => ""⟩

/-- A context that builds them. -/
def twoContext : BuildContext Unit Unit Unit := ⟨some "here", some (), some (), fun _ => .ok ()⟩

/-- An input with one peer. -/
def inputOf (name nodeId : String) (b : UInt8) : LtpInput Unit Unit Unit :=
  ⟨name, "0.0.0.0:7514", "here", (), ⟨[(spkiOf b, nodeId)], List.nodup_singleton _⟩, 16, 1024, (),
    ()⟩

/-- The members of their group. -/
def twoMembers : List (LtpInput Unit Unit Unit × ℕ) :=
  [(inputOf "b" "west" 1, 1), (inputOf "a" "east" 0, 0)]

theorem twoInputs_valid (rt : Runtime) (formats : Formats) :
    validateListenerGroups rt formats twoKeys (·.nodeBySpki) twoInputs = .ok () := by
  have hspecs : twoInputs.mapM (listenerSpec rt formats twoKeys) =
      .ok (twoMembers.map fun member => specOf member.1) := rfl
  rw [validateListenerGroups, hspecs]
  rfl

/-- The group of the two inputs is built, and each peer is routed to its input. -/
theorem groups_build_two : ∃ first ∈ twoMembers, ∃ routes,
    validateListenerGroups binary64 noFormats twoKeys (·.nodeBySpki) twoInputs = .ok () ∧
      (fromMembers (·.nodeBySpki) (fun _ peers _ => .ok peers) twoMembers :
          Except String (SharedListenerGroup PeerRegistry Unit Unit ℕ Unit)) =
        .ok ⟨"0.0.0.0:7514", ["a", "b"], peersOf routes, routes, first.1.maxConnections, (),
          .empty⟩ := by
  have hstarted : ∀ entry ∈ twoInputs.zip twoMembers,
      LtpInput.fromProperties binary64 noFormats twoKeys twoContext entry.1.1 entry.1.2 =
        .ok entry.2.1 := by
    intro entry hentry
    rcases List.mem_cons.mp hentry with rfl | hentry
    · rfl
    · obtain rfl := List.mem_singleton.mp hentry
      rfl
  have hgroup : ("0.0.0.0:7514", twoMembers) ∈
      groupByBind (·.1.bindAddr) ((twoInputs.zip twoMembers).map Prod.snd) :=
    List.mem_singleton_self _
  obtain ⟨first, hfirst, routes, hbuilt, -⟩ := groups_build
    (fun peers => List.Perm.refl peers.nodeBySpki) (fun peers => List.Perm.refl peers.nodeBySpki)
    (fun _ peers _ => .ok peers) (twoInputs_valid binary64 noFormats) (List.Perm.refl _).subperm
    hstarted hgroup
  exact ⟨first, hfirst, routes, twoInputs_valid binary64 noFormats, hbuilt⟩

end Two

end Limpid.Ltp

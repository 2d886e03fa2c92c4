import Codexwatch.Client.Procfs

/-!
# Attribution of segments to sockets

The sockets in an index and the segments of packets are compared by the text of their
addresses. The kernel prints an IPv4 connection of an IPv6 socket with IPv4-mapped addresses;
its packets are IPv4 packets with other texts, and are attributed to nobody.

## Main definitions

* `Decoded` — a segment that comes out of a frame.
* `Attributes` — the right direction for every segment, and for no other one.

## Main results

* `fromProcRoot_attributes_iff`.
-/
namespace Codexwatch.Client

open Protocol Capture Relational Text

/-! ## Attribution -/

/-- A segment that comes out of a frame with a packet from one end to the other. -/
def Decoded (source destination : Endpoint IpAddr) (segment : TcpSegment) : Prop :=
  ∃ library frame packet tcp, slicedPacket library frame = .ok (some packet) ∧
    packet.addresses = some (source.ip, destination.ip) ∧ packet.tcp? = some tcp ∧
    tcp.sourcePort.toNat = source.port ∧ tcp.destinationPort.toNat = destination.port ∧
    decodeSegment library frame = .ok (some segment)

/-- One of the sockets is connected so. -/
def Connects (sockets : List KernelSocket) (localEnd remoteEnd : Endpoint IpAddr) : Prop :=
  ∃ socket ∈ sockets, socket.localEnd = localEnd ∧ socket.remoteEnd = remoteEnd

/-- The segments of the sockets have their directions, and no other segment has one. -/
structure Attributes (sockets : List KernelSocket) (index : ProcessFlowIndex) : Prop where
  sent : ∀ source destination segment, Decoded source destination segment →
    Connects sockets source destination → ¬ Connects sockets destination source →
      index.directionForSegment segment = some .localToRemote
  received : ∀ source destination segment, Decoded source destination segment →
    Connects sockets destination source → ¬ Connects sockets source destination →
      index.directionForSegment segment = some .remoteToLocal
  within : ∀ source destination segment, Decoded source destination segment →
    Connects sockets source destination → Connects sockets destination source →
      (index.directionForSegment segment).isSome
  others : ∀ source destination segment, Decoded source destination segment →
    ¬ Connects sockets source destination → ¬ Connects sockets destination source →
      index.directionForSegment segment = none

/-! ## The flows and the sockets -/

namespace KernelSocket

/-- The ends as the kernel prints them. -/
def printedLocal : KernelSocket → Endpoint IpAddr
  | .inet row => ⟨.v4 row.localAddress, row.localPort.toNat⟩
  | .inet6 row => ⟨.v6 row.localAddress, row.localPort.toNat⟩

def printedRemote : KernelSocket → Endpoint IpAddr
  | .inet row => ⟨.v4 row.remoteAddress, row.remotePort.toNat⟩
  | .inet6 row => ⟨.v6 row.remoteAddress, row.remotePort.toNat⟩

theorem entry_fst (socket : KernelSocket) : socket.entry.1 = socket.inode.toNat := by
  cases socket <;> rfl

end KernelSocket

/-- The flow of a socket. -/
structure FlowOf (socket : KernelSocket) (flow : ProcessSocketFlow) : Prop where
  localIp : flow.localIp = ipText socket.printedLocal.ip
  localPort : flow.localPort = socket.printedLocal.port
  remoteIp : flow.remoteIp = ipText socket.printedRemote.ip
  remotePort : flow.remotePort = socket.printedRemote.port

theorem flowOf_entry (socket : KernelSocket) (pid inode : ℕ) (fd : ℤ) :
    FlowOf socket
      { pid, fd, inode
        localIp := socket.entry.2.localIp
        localPort := socket.entry.2.localPort
        remoteIp := socket.entry.2.remoteIp
        remotePort := socket.entry.2.remotePort
        ipv6 := socket.entry.2.ipv6 } := by
  cases socket <;> exact ⟨rfl, rfl, rfl, rfl⟩

/-- The flows are those of the sockets. -/
structure IndexOf (sockets : List KernelSocket) (index : ProcessFlowIndex) : Prop where
  of_flow : ∀ flow ∈ index.flows, ∃ socket ∈ sockets, FlowOf socket flow
  of_socket : ∀ socket ∈ sockets, ∃ flow ∈ index.flows, FlowOf socket flow

/-- An inode of a file belongs to one socket. -/
theorem KernelTables.eq_of_inode (tables : KernelTables) {socket socket' : KernelSocket}
    (hsocket : socket ∈ tables.sockets) (hsocket' : socket' ∈ tables.sockets)
    (hinode : socket.inode = socket'.inode) (hne : socket.inode ≠ 0) : socket = socket' := by
  have hmap : tables.sockets.map KernelSocket.inode =
      tables.tcp.map SocketRow.inode ++ tables.tcp6.map SocketRow.inode := by
    rw [KernelTables.sockets, List.map_append, List.map_map, List.map_map]
    rfl
  have hnodup := tables.inodes
  rw [← hmap, List.filter_map] at hnodup
  refine List.inj_on_of_nodup_map hnodup ?_ ?_ hinode
  · simpa [hsocket] using hne
  · simpa [hsocket', ← hinode] using hne

theorem nodup_inodes (files : ProcessFiles) : (files.inodes.map Prod.fst).Nodup := by
  have hkeys : files.inodes.map Prod.fst =
      (files.descriptors.filter fun d => d.2.inode?.isSome).map fun d => (d.1 : ℤ) := by
    rw [ProcessFiles.inodes]
    induction files.descriptors with
    | nil => rfl
    | cons d descriptors ih =>
        cases htarget : d.2.inode? with
        | none =>
            rw [List.filterMap_cons_none (by rw [htarget]; rfl),
              List.filter_cons_of_neg (by simp [htarget]), ih]
        | some inode =>
            rw [List.filterMap_cons_some (by rw [htarget]; rfl),
              List.filter_cons_of_pos (by simp [htarget]), List.map_cons, List.map_cons, ih]
  rw [hkeys]
  have hcast : ((files.descriptors.map Prod.fst).map fun n : ℕ => (n : ℤ)).Nodup :=
    files.nodup.map fun _ _ heq => Int.ofNat.inj heq
  rw [List.map_map] at hcast
  exact hcast.sublist (List.filter_sublist.map _)

theorem mem_inodes {files : ProcessFiles} {fd : ℤ} {inode : ℕ} :
    (fd, inode) ∈ files.inodes ↔
      ∃ d ∈ files.descriptors, ∃ i, d.2.inode? = some i ∧ (d.1 : ℤ) = fd ∧ i.toNat = inode := by
  simp only [ProcessFiles.inodes, List.mem_filterMap, Option.map_eq_some_iff, Prod.mk.injEq]

theorem mem_sockets {files : ProcessFiles} {tables : KernelTables} {socket : KernelSocket} :
    socket ∈ files.sockets tables ↔ socket ∈ tables.sockets ∧
      ∃ d ∈ files.descriptors, d.2.inode? = some socket.inode := by
  simp [ProcessFiles.sockets]

theorem FileTarget.inode?_ne_zero {target : FileTarget} {inode : UInt64}
    (h : target.inode? = some inode) : inode ≠ 0 := by
  cases target with
  | socket inode' ne_zero =>
      obtain rfl := Option.some.inj h
      exact ne_zero
  | other target noSocket => cases h

/-- What is printed is read, and the index has the sockets of the process. -/
theorem fromProcRoot_eq (tables : KernelTables) (files : ProcessFiles) (pid : ℕ) :
    ∃ index, fromProcRoot (procRootOf tables files) pid = .ok index ∧
      IndexOf (files.sockets tables) index := by
  simp only [fromProcRoot, socketInodesForPid_eq, loadTcpEntries_eq, bind, Except.bind]
  refine ⟨_, rfl, ?_, ?_⟩
  · intro flow hflow
    obtain ⟨⟨fd, inode⟩, hmem, hentry⟩ := List.mem_filterMap.mp hflow
    obtain ⟨entry, hget, rfl⟩ := Option.map_eq_some_iff.mp hentry
    obtain ⟨socket, hsocket, heq⟩ := List.mem_map.mp (Table.mem_of_get?_putAll_empty hget)
    rw [List.mem_mergeSort, Table.mem_rows_iff] at hmem
    obtain ⟨d, hd, i, hi, -, hinode⟩ := mem_inodes.mp (Table.mem_of_get?_putAll_empty hmem)
    have hsame : i = socket.inode := by
      rw [← UInt64.toNat_inj, hinode, ← socket.entry_fst, heq]
    refine ⟨socket, mem_sockets.mpr ⟨hsocket, d, hd, hi.trans (congrArg some hsame)⟩, ?_⟩
    obtain rfl : entry = socket.entry.2 := by rw [heq]
    exact flowOf_entry socket pid inode fd
  · intro socket hsocket
    obtain ⟨hsocket, d, hd, hinode⟩ := mem_sockets.mp hsocket
    have hheld : ((d.1 : ℤ), socket.inode.toNat) ∈ files.inodes :=
      mem_inodes.mpr ⟨d, hd, socket.inode, hinode, rfl, rfl⟩
    have hrow := Table.get?_putAll_of_nodup (t := Table.empty) (nodup_inodes files) hheld
    have hkey : socket.inode.toNat ∈ (tables.sockets.map KernelSocket.entry).map Prod.fst := by
      rw [← socket.entry_fst]
      exact List.mem_map_of_mem (f := Prod.fst) (List.mem_map_of_mem hsocket)
    obtain ⟨entry, hentry, hget⟩ := Table.get?_putAll_of_mem (t := Table.empty) hkey
    obtain ⟨socket', hsocket', heq⟩ := List.mem_map.mp hentry
    have hsame : socket = socket' := by
      refine tables.eq_of_inode hsocket hsocket' ?_ (FileTarget.inode?_ne_zero hinode)
      rw [← UInt64.toNat_inj, ← socket'.entry_fst, heq]
    subst hsame
    obtain rfl : entry = socket.entry.2 := by rw [heq]
    refine ⟨_, List.mem_filterMap.mpr ⟨(d.1, socket.inode.toNat), ?_, ?_⟩,
      flowOf_entry socket pid socket.inode.toNat d.1⟩
    · rw [List.mem_mergeSort, Table.mem_rows_iff]
      exact hrow
    · simp only [hget, Option.map_some]

/-! ## Directions -/

theorem ipText_inj {a b : IpAddr} : ipText a = ipText b ↔ a = b := by
  constructor
  · intro h
    have hchars := congrArg String.toList h
    rw [ipText, ipText, String.toList_ofList, String.toList_ofList] at hchars
    exact IpAddr.display_inj hchars
  · rintro rfl
    rfl

section Direction
variable {source destination : Endpoint IpAddr} {segment : TcpSegment}
  {sockets : List KernelSocket} {index : ProcessFlowIndex}

/-- The columns of a decoded segment. -/
theorem Decoded.columns (h : Decoded source destination segment) :
    segment.sourceIp = ipText source.ip ∧ segment.sourcePort = source.port ∧
      segment.destinationIp = ipText destination.ip ∧
        segment.destinationPort = destination.port := by
  obtain ⟨library, frame, packet, tcp, hpacket, haddresses, htcp, hsource, hdestination, h⟩ := h
  rw [decodeSegment, hpacket] at h
  simp only [Except.map, Option.bind_some, SlicedPacket.segment?, haddresses, htcp,
    Option.bind_eq_bind, Option.pure_def, Except.ok.injEq, Option.some.injEq] at h
  subst h
  exact ⟨rfl, hsource, rfl, hdestination⟩

/-- A packet between any two ends can be in a frame. -/
theorem exists_decoded (source destination : Endpoint IpAddr) (hsource : source.port < 2 ^ 16)
    (hdestination : destination.port < 2 ^ 16)
    (hfamily : ∃ net, SlicedPacket.addresses ⟨some net, none⟩ =
      some (source.ip, destination.ip)) : ∃ segment, Decoded source destination segment := by
  obtain ⟨net, hnet⟩ := hfamily
  let tcp : TcpSlice := ⟨.ofNat source.port, .ofNat destination.port, 0, false, false, false, []⟩
  let packet : SlicedPacket := ⟨some net, some (.tcp tcp)⟩
  have haddresses : packet.addresses = some (source.ip, destination.ip) := hnet
  obtain ⟨segment, hsegment⟩ : ∃ segment, packet.segment? = some segment := by
    rw [SlicedPacket.segment?, haddresses]
    exact ⟨_, rfl⟩
  refine ⟨segment, ⟨fun _ => .ok packet, fun _ => .ok packet⟩, [], packet, tcp, rfl, haddresses,
    rfl, UInt16.toNat_ofNat_of_lt' hsource, UInt16.toNat_ofNat_of_lt' hdestination, ?_⟩
  exact congrArg Except.ok hsegment

/-- One of the sockets is printed so. -/
def Prints (sockets : List KernelSocket) (localEnd remoteEnd : Endpoint IpAddr) : Prop :=
  ∃ socket ∈ sockets, socket.printedLocal = localEnd ∧ socket.printedRemote = remoteEnd

theorem endpoint_eq_iff {a b : Endpoint IpAddr} {ip : String} {port : ℕ} (hip : ip = ipText a.ip)
    (hport : port = a.port) : ip = ipText b.ip ∧ port = b.port ↔ a = b := by
  rw [hip, hport, ipText_inj]
  cases a
  cases b
  simp

theorem FlowOf.direction?_eq {socket : KernelSocket} {flow : ProcessSocketFlow}
    (h : FlowOf socket flow) (hdecoded : Decoded source destination segment) :
    flow.direction? segment =
      if socket.printedLocal = source ∧ socket.printedRemote = destination then
        some .localToRemote
      else if socket.printedLocal = destination ∧ socket.printedRemote = source then
        some .remoteToLocal
      else none := by
  obtain ⟨hsourceIp, hsourcePort, hdestinationIp, hdestinationPort⟩ := hdecoded.columns
  have hlocal : ∀ e : Endpoint IpAddr, flow.localIp = ipText e.ip ∧ flow.localPort = e.port ↔
      socket.printedLocal = e := fun e => endpoint_eq_iff h.localIp h.localPort
  have hremote : ∀ e : Endpoint IpAddr, flow.remoteIp = ipText e.ip ∧ flow.remotePort = e.port ↔
      socket.printedRemote = e := fun e => endpoint_eq_iff h.remoteIp h.remotePort
  simp only [ProcessSocketFlow.direction?, hsourceIp, hsourcePort, hdestinationIp,
    hdestinationPort, ← and_assoc]
  simp only [hlocal, hremote, and_assoc]

/-- The direction of a segment is that of a socket that is printed with its ends. -/
theorem IndexOf.direction (h : IndexOf sockets index)
    (hdecoded : Decoded source destination segment) :
    (index.directionForSegment segment = some .localToRemote → Prints sockets source destination) ∧
    (index.directionForSegment segment = some .remoteToLocal → Prints sockets destination source) ∧
    (Prints sockets source destination ∨ Prints sockets destination source →
      (index.directionForSegment segment).isSome) := by
  refine ⟨?_, ?_, ?_⟩
  · intro hdirection
    obtain ⟨flow, hflow, hone⟩ := List.exists_of_findSome?_eq_some hdirection
    obtain ⟨socket, hsocket, hof⟩ := h.of_flow flow hflow
    rw [hof.direction?_eq hdecoded] at hone
    split_ifs at hone with hsent hreceived
    · exact ⟨socket, hsocket, hsent⟩
    · cases hone
  · intro hdirection
    obtain ⟨flow, hflow, hone⟩ := List.exists_of_findSome?_eq_some hdirection
    obtain ⟨socket, hsocket, hof⟩ := h.of_flow flow hflow
    rw [hof.direction?_eq hdecoded] at hone
    split_ifs at hone with hsent hreceived
    · cases hone
    · exact ⟨socket, hsocket, hreceived⟩
  · intro hprints
    rw [ProcessFlowIndex.directionForSegment, List.findSome?_isSome_iff]
    rcases hprints with ⟨socket, hsocket, hends⟩ | ⟨socket, hsocket, hends⟩
    · obtain ⟨flow, hflow, hof⟩ := h.of_socket socket hsocket
      refine ⟨flow, hflow, ?_⟩
      rw [hof.direction?_eq hdecoded, if_pos hends]
      rfl
    · obtain ⟨flow, hflow, hof⟩ := h.of_socket socket hsocket
      refine ⟨flow, hflow, ?_⟩
      rw [hof.direction?_eq hdecoded, if_pos hends]
      split <;> rfl

end Direction

/-! ## Mapped addresses -/

theorem wireAddress_of_none {a : Ipv6Addr} (h : a.toIpv4Mapped = none) : wireAddress a = .v6 a := by
  rw [wireAddress, h]

/-- No connection has an IPv4-mapped address on the wire. -/
theorem wireAddress_ne_mapped {a b : Ipv6Addr} (h : a.toIpv4Mapped.isSome) :
    wireAddress b ≠ .v6 a := by
  intro heq
  rw [wireAddress] at heq
  cases hb : b.toIpv4Mapped with
  | some v4 =>
      rw [hb] at heq
      cases heq
  | none =>
      rw [hb] at heq
      cases heq
      rw [hb] at h
      cases h

/-- A socket that is not mapped is printed with the addresses of its packets. -/
theorem KernelSocket.printed_eq {socket : KernelSocket} (h : ¬ socket.Mapped) :
    socket.printedLocal = socket.localEnd ∧ socket.printedRemote = socket.remoteEnd := by
  cases socket with
  | inet row => exact ⟨rfl, rfl⟩
  | inet6 row =>
      simp only [Mapped, not_or, Option.not_isSome_iff_eq_none] at h
      simp only [printedLocal, printedRemote, localEnd, remoteEnd, wireAddress_of_none h.1,
        wireAddress_of_none h.2, and_self]

theorem prints_iff_connects {sockets : List KernelSocket}
    (h : ∀ socket ∈ sockets, ¬ socket.Mapped) (a b : Endpoint IpAddr) :
    Prints sockets a b ↔ Connects sockets a b := by
  constructor
  · rintro ⟨socket, hsocket, hends⟩
    obtain ⟨hlocal, hremote⟩ := KernelSocket.printed_eq (h socket hsocket)
    rw [hlocal, hremote] at hends
    exact ⟨socket, hsocket, hends⟩
  · rintro ⟨socket, hsocket, hends⟩
    obtain ⟨hlocal, hremote⟩ := KernelSocket.printed_eq (h socket hsocket)
    rw [← hlocal, ← hremote] at hends
    exact ⟨socket, hsocket, hends⟩

theorem attributes_of_not_mapped {sockets : List KernelSocket} {index : ProcessFlowIndex}
    (h : IndexOf sockets index) (hmapped : ∀ socket ∈ sockets, ¬ socket.Mapped) :
    Attributes sockets index := by
  have hspec : ∀ {source destination : Endpoint IpAddr} {segment : TcpSegment},
      Decoded source destination segment →
      (index.directionForSegment segment = some .localToRemote →
        Connects sockets source destination) ∧
      (index.directionForSegment segment = some .remoteToLocal →
        Connects sockets destination source) ∧
      (Connects sockets source destination ∨ Connects sockets destination source →
        (index.directionForSegment segment).isSome) := by
    intro source destination segment hdecoded
    simpa only [prints_iff_connects hmapped] using h.direction hdecoded
  constructor
  · intro source destination segment hdecoded hsent hnot
    obtain ⟨-, hreceived, hsome⟩ := hspec hdecoded
    obtain ⟨direction, hdirection⟩ := Option.isSome_iff_exists.mp (hsome (.inl hsent))
    cases direction with
    | localToRemote => exact hdirection
    | remoteToLocal => exact absurd (hreceived hdirection) hnot
  · intro source destination segment hdecoded hreceived hnot
    obtain ⟨hsent, -, hsome⟩ := hspec hdecoded
    obtain ⟨direction, hdirection⟩ := Option.isSome_iff_exists.mp (hsome (.inr hreceived))
    cases direction with
    | localToRemote => exact absurd (hsent hdirection) hnot
    | remoteToLocal => exact hdirection
  · intro source destination segment hdecoded hsent _
    exact (hspec hdecoded).2.2 (.inl hsent)
  · intro source destination segment hdecoded hsent hreceived
    obtain ⟨honly, honly', -⟩ := hspec hdecoded
    cases hdirection : index.directionForSegment segment with
    | none => rfl
    | some direction =>
        cases direction with
        | localToRemote => exact absurd (honly hdirection) hsent
        | remoteToLocal => exact absurd (honly' hdirection) hreceived

/-- The flow of a mapped socket takes IPv6 packets with the mapped addresses for its own, and
none of its own packets. -/
theorem not_attributes_of_mapped {sockets : List KernelSocket} {index : ProcessFlowIndex}
    (h : IndexOf sockets index) {socket : KernelSocket} (hsocket : socket ∈ sockets)
    (hmapped : socket.Mapped) : ¬ Attributes sockets index := by
  intro hattributes
  cases socket with
  | inet row => exact hmapped
  | inet6 row =>
      obtain ⟨segment, hdecoded⟩ := exists_decoded (KernelSocket.inet6 row).printedLocal
        (KernelSocket.inet6 row).printedRemote row.localPort.toNat_lt row.remotePort.toNat_lt
        ⟨.ipv6 row.localAddress row.remoteAddress, rfl⟩
      have hsome := (h.direction hdecoded).2.2 (.inl ⟨_, hsocket, rfl, rfl⟩)
      have hip : ∀ s : KernelSocket, ∀ a : Ipv6Addr, a.toIpv4Mapped.isSome →
          s.localEnd.ip ≠ .v6 a ∧ s.remoteEnd.ip ≠ .v6 a := by
        intro s a ha
        cases s with
        | inet row' => exact ⟨by rintro ⟨⟩, by rintro ⟨⟩⟩
        | inet6 row' => exact ⟨wireAddress_ne_mapped ha, wireAddress_ne_mapped ha⟩
      have hnone := hattributes.others _ _ segment hdecoded
        (by
          rintro ⟨s, -, hlocal, hremote⟩
          rcases hmapped with ha | ha
          · exact (hip s _ ha).1 (congrArg Endpoint.ip hlocal)
          · exact (hip s _ ha).2 (congrArg Endpoint.ip hremote))
        (by
          rintro ⟨s, -, hlocal, hremote⟩
          rcases hmapped with ha | ha
          · exact (hip s _ ha).2 (congrArg Endpoint.ip hremote)
          · exact (hip s _ ha).1 (congrArg Endpoint.ip hlocal))
      rw [hnone] at hsome
      cases hsome

/-- The segments of the process are attributed, and no others, exactly when none of its sockets is
printed with an IPv4-mapped address. -/
theorem fromProcRoot_attributes_iff (tables : KernelTables) (files : ProcessFiles) (pid : ℕ) :
    ∃ index, fromProcRoot (procRootOf tables files) pid = .ok index ∧
      (Attributes (files.sockets tables) index ↔
        ∀ socket ∈ files.sockets tables, ¬ socket.Mapped) := by
  obtain ⟨index, hok, hindex⟩ := fromProcRoot_eq tables files pid
  refine ⟨index, hok, ?_, attributes_of_not_mapped hindex⟩
  intro hattributes socket hsocket hmapped
  exact not_attributes_of_mapped hindex hsocket hmapped hattributes

/-! ## An IPv4 connection of an IPv6 socket -/

/-- 10.0.0.1:8080 to 10.0.0.2:443, as an IPv6 socket. -/
def dualStackRow : SocketRow Ipv6Addr where
  slot := 0
  localAddress := Ipv4Addr.toIpv6Mapped ⟨[10, 0, 0, 1], rfl⟩
  localPort := 8080
  remoteAddress := Ipv4Addr.toIpv6Mapped ⟨[10, 0, 0, 2], rfl⟩
  remotePort := 443
  state := 1
  txQueue := 0
  rxQueue := 0
  timer := 0
  expires := 0
  retransmits := 0
  uid := 1000
  probes := 0
  inode := 456
  tail := []
  tail_oneLine := by simp

def dualStackTables : KernelTables where
  heading := []
  tcp := []
  heading6 := []
  tcp6 := [dualStackRow]
  heading_line := ⟨by simp, by simp⟩
  heading6_line := ⟨by simp, by simp⟩
  inodes := by decide

def dualStackFiles : ProcessFiles where
  descriptors := [(5, .socket 456 (by decide))]
  small := by simp
  nodup := by simp

/-- A packet that the process sends on this connection is not attributed. -/
theorem not_attributes_dualStack :
    ∃ index segment, fromProcRoot (procRootOf dualStackTables dualStackFiles) 7 = .ok index ∧
      Decoded ⟨.v4 ⟨[10, 0, 0, 1], rfl⟩, 8080⟩ ⟨.v4 ⟨[10, 0, 0, 2], rfl⟩, 443⟩ segment ∧
      Connects (dualStackFiles.sockets dualStackTables) ⟨.v4 ⟨[10, 0, 0, 1], rfl⟩, 8080⟩
        ⟨.v4 ⟨[10, 0, 0, 2], rfl⟩, 443⟩ ∧
      index.directionForSegment segment = none ∧
      ¬ Attributes (dualStackFiles.sockets dualStackTables) index := by
  obtain ⟨index, hok, hindex⟩ := fromProcRoot_eq dualStackTables dualStackFiles 7
  have hsockets : dualStackFiles.sockets dualStackTables = [.inet6 dualStackRow] := rfl
  rw [hsockets] at hindex ⊢
  obtain ⟨segment, hdecoded⟩ := exists_decoded ⟨.v4 ⟨[10, 0, 0, 1], rfl⟩, 8080⟩
    ⟨.v4 ⟨[10, 0, 0, 2], rfl⟩, 443⟩ (by decide) (by decide) ⟨.ipv4 _ _, rfl⟩
  have hprints : ∀ a b c, ¬ Prints [.inet6 dualStackRow] ⟨.v4 a, b⟩ c := by
    rintro a b c ⟨socket, hsocket, hlocal, -⟩
    obtain rfl := List.mem_singleton.mp hsocket
    cases congrArg Endpoint.ip hlocal
  obtain ⟨hsent, hreceived, -⟩ := hindex.direction hdecoded
  refine ⟨index, segment, hok, hdecoded, ⟨_, List.mem_singleton_self _, rfl, rfl⟩, ?_,
    not_attributes_of_mapped hindex (List.mem_singleton_self _) (.inl rfl)⟩
  cases hdirection : index.directionForSegment segment with
  | none => rfl
  | some direction =>
      cases direction with
      | localToRemote => exact absurd (hsent hdirection) (hprints _ _ _)
      | remoteToLocal => exact absurd (hreceived hdirection) (hprints _ _ _)

end Codexwatch.Client

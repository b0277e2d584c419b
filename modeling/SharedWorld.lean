import SharedWorld.Packet.Codec
import SharedWorld.Tile.Island
import SharedWorld.View.World
import SharedWorld.Link.Endpoint
import SharedWorld.Server
import SharedWorld.Config.Codec
import SharedWorld.Pacer.Basic
import SharedWorld.Login.Password
import SharedWorld.Link.Outbox
import SharedWorld.Link.Mailbox
import SharedWorld.Link.Hub
import SharedWorld.Startup
import SharedWorld.Client.Connect
import SharedWorld.Client.Session
import SharedWorld.Main
import SharedWorld.Proofs.View.Tiles
import SharedWorld.Proofs.Server.Consistency
import SharedWorld.Proofs.Server.Streams
import SharedWorld.Proofs.Wire.Grammar
import SharedWorld.Proofs.Wire.Frame
import SharedWorld.Proofs.Packet.RoundTrip
import SharedWorld.Proofs.Packet.Language
import SharedWorld.Proofs.Atlas.Run
import SharedWorld.Proofs.World.Notices
import SharedWorld.Proofs.Delivery
import SharedWorld.Proofs.View.Appearance
import SharedWorld.Proofs.View.Newest
import SharedWorld.Proofs.Atlas.Stay
import SharedWorld.Proofs.Atlas.Removal
import SharedWorld.Proofs.World.Gate
import SharedWorld.Proofs.World.Numbers
import SharedWorld.Proofs.Atlas.Numbers
import SharedWorld.Proofs.World.Removal
import SharedWorld.Proofs.View.Removal
import SharedWorld.Proofs.Atlas.Reports
import SharedWorld.Proofs.Atlas.Authority
import SharedWorld.Proofs.World.Reports
import SharedWorld.Proofs.Realm.Agreement
import SharedWorld.Proofs.Link.Inbound
import SharedWorld.Proofs.Link.Hub
import SharedWorld.Proofs.Link.Mailbox
import SharedWorld.Proofs.Clock
import SharedWorld.Proofs.Pacer
import SharedWorld.Proofs.World.Cadence
import SharedWorld.Proofs.World.Broadcasts
import SharedWorld.Proofs.World.Sizes
import SharedWorld.Proofs.World.Visibility
import SharedWorld.Proofs.Login.Directory
import SharedWorld.Proofs.Link.Outbox
import SharedWorld.Proofs.Realm.Chat
import SharedWorld.Proofs.Tile.Grid
import SharedWorld.Proofs.View.Updates
import SharedWorld.Proofs.View.Details
import SharedWorld.Proofs.Server.Probing
import SharedWorld.Proofs.Client.Safety
import SharedWorld.Proofs.Login.History
import SharedWorld.Proofs.Wire.Sequence
import SharedWorld.Proofs.Wire.Cursor
import SharedWorld.Proofs.Packet.Delimited
import SharedWorld.Proofs.Character.Relay

import PiVpn.Helper.AllOrNothing
import PiVpn.App.Addresses
import PiVpn.App.MetadataFrame
import PiVpn.App.Transport
import PiVpn.App.Commands
import PiVpn.Maintenance.Reboots
import PiVpn.Maintenance.Rollback
import PiVpn.Monitor.Downtime
import PiVpn.Monitor.StateFile
import PiVpn.Maintenance.Clients
import PiVpn.Helper.KeyText
import PiVpn.Helper.ConfParts
import PiVpn.App.Allocation
import PiVpn.App.Terse
import PiVpn.App.Profile
import PiVpn.App.Routing
import PiVpn.Maintenance.BootHealth
import PiVpn.Monitor.Telemetry
import PiVpn.App.PeerLink
import PiVpn.Helper.LivePeers
import PiVpn.App.Activation
import PiVpn.App.Secrets
import PiVpn.App.OverlapCheck
import PiVpn.App.PeerTable
import PiVpn.Maintenance.DdnsUpdate
import PiVpn.Lib.Exclusive
import PiVpn.Maintenance.Health
import PiVpn.Maintenance.SystemLock
import PiVpn.Maintenance.Cleanup
import PiVpn.Maintenance.DeviceEnv
import PiVpn.App.SignIn
import PiVpn.Lib.Pool
import PiVpn.Helper.Lineage
import PiVpn.Helper.KeyFiles
import PiVpn.Maintenance.WifiConsole
import PiVpn.Lib.Broker
import PiVpn.Monitor.Availability

import Xlink.Tools.MakeServer
import Xlink.Port.Handshake
import Xlink.Port.Ping
import Xlink.Port.Direction
import Xlink.Server.InStep
import Xlink.Server.LoadSave
import Xlink.Server.HandBack
import Xlink.Server.Vector
import Xlink.Server.Screen
import Xlink.Server.PokeLoad
import Xlink.Host.Release
import Xlink.Host.Turnaround
import Xlink.Host.Truth
import Xlink.Host.Device
import Xlink.Serial.Aligned
import Xlink.Serial.Count
import Xlink.Server.PeekSave
import Xlink.Server.Twins
import Xlink.Client.ServerSpared
import Xlink.Client.Calls
import Xlink.Client.FreeMemory
import Xlink.Client.RelocateApart
import Xlink.Client.LoadConfig
import Xlink.Client.RoundTrip
import Xlink.Client.RangeText
import Xlink.Client.SplitOptions
import Xlink.Client.Log
import Xlink.Usb.Receive
import Xlink.Serial.Reply
import Xlink.Serial.Write
import Xlink.Tools.MakeKernal
import Xlink.Tools.MakeBootstrap
import Xlink.Tools.Loader
import Xlink.Host.Relocation
import Xlink.Serial.Buffered
import Xlink.Server.Library
import Xlink.Server.Bootstrap
import Xlink.Board.Transfers
import Xlink.Board.Rest

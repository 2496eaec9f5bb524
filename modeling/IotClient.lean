import IotClient.Mem.Run
import IotClient.Mem.Block
import IotClient.Mem.Byte
import IotClient.Mem.Endian
import IotClient.Mem.Read
import IotClient.Mem.Junk
import IotClient.Machine.Runs
import IotClient.Machine.Table
import IotClient.Machine.Requests
import IotClient.Machine.Frames
import IotClient.Machine.Channel
import IotClient.Machine.Buckets
import IotClient.Machine.Entries
import IotClient.Machine.Bits
import IotClient.Json.Value
import IotClient.Json.Text
import IotClient.Account
import IotClient.Helpers
import IotClient.Utf8
import IotClient.Map.Map
import IotClient.Map.WellFormed
import IotClient.Map.Calls
import IotClient.Map.Iteration
import IotClient.Map.Keyed
import IotClient.Net.LwsNetClient
import IotClient.Net.Connecting
import IotClient.Net.Dyad
import IotClient.Net.FdSets
import IotClient.Net.Datagrams
import IotClient.Net.Healthy
import IotClient.Net.Logging
import IotClient.Net.Writing
import IotClient.Mqtt.Packets
import IotClient.Mqtt.Parser
import IotClient.Mqtt.Encoding
import IotClient.Mqtt.FrameSize
import IotClient.Mqtt.TopicLists
import IotClient.Mqtt.Broker
import IotClient.Mqtt.Connect
import IotClient.Mqtt.RemainingLength
import IotClient.Mqtt.LengthDigits
import IotClient.Mqtt.Readable
import IotClient.Mqtt.Client
import IotClient.Mqtt.Sending
import IotClient.Mqtt.Requests
import IotClient.Mqtt.PacketIds
import IotClient.Mqtt.Timers
import IotClient.Mqtt.OverTcp
import IotClient.Ws.Base64
import IotClient.Ws.Jansson
import IotClient.Ws.Parser
import IotClient.Ws.RoundTrip
import IotClient.Ws.Readable
import IotClient.Ws.Connect
import IotClient.Mqtt.Incoming
import IotClient.MqttSn.Packets
import IotClient.MqttSn.Parser
import IotClient.MqttSn.Datagrams
import IotClient.MqttSn.RoundTrip
import IotClient.MqttSn.FrameSize
import IotClient.MqttSn.TopicMessages
import IotClient.MqttSn.Client
import IotClient.MqttSn.Session
import IotClient.MqttSn.MessageIds
import IotClient.MqttSn.TopicMaps
import IotClient.MqttSn.Requests
import IotClient.MqttSn.Unexpected
import IotClient.MqttSn.Registrations
import IotClient.MqttSn.ExactlyOnce
import IotClient.MqttSn.OverUdp
import IotClient.Coap.Message
import IotClient.Coap.Parser
import IotClient.Coap.Wire
import IotClient.Coap.Decoding
import IotClient.Coap.Header
import IotClient.Coap.Options
import IotClient.Coap.Payload
import IotClient.Coap.Client
import IotClient.Coap.Datagrams
import IotClient.Coap.Received
import IotClient.Coap.Delivered
import IotClient.Coap.Bounds
import IotClient.Coap.Session
import IotClient.Coap.Allowance
import IotClient.Coap.Requests
import IotClient.Coap.Acknowledge
import IotClient.Coap.OverUdp
import IotClient.Amqp.AmqpType
import IotClient.Amqp.Packets
import IotClient.Amqp.Tlv
import IotClient.Amqp.TlvFactory
import IotClient.Amqp.Calc
import IotClient.Amqp.Wrapper
import IotClient.Amqp.Unwrapper
import IotClient.Amqp.HeaderFactory
import IotClient.Amqp.Parser
import IotClient.Amqp.Value
import IotClient.Amqp.TlvSync
import IotClient.Amqp.TlvContents
import IotClient.Amqp.Encoding
import IotClient.Amqp.Integers
import IotClient.Amqp.Strings
import IotClient.Amqp.Arguments
import IotClient.Amqp.Positional
import IotClient.Amqp.Slots
import IotClient.Amqp.Sendable
import IotClient.Amqp.Listed
import IotClient.Amqp.SizeField
import IotClient.Amqp.Sent
import IotClient.Amqp.Frame
import IotClient.Amqp.FrameLength
import IotClient.Amqp.Performatives
import IotClient.Amqp.Attach
import IotClient.Amqp.Receive
import IotClient.Amqp.Client
import IotClient.Amqp.MessageBody
import IotClient.Amqp.Mandatory
import IotClient.Amqp.Session
import IotClient.Amqp.HandleMaps
import IotClient.Amqp.Deliveries
import IotClient.Amqp.Queue
import IotClient.Amqp.Ordering
import IotClient.Amqp.Sasl
import IotClient.Amqp.Accepted
import IotClient.Amqp.Elements
import IotClient.Amqp.Fields
import IotClient.Amqp.PacketFits
import IotClient.Amqp.LinkFits
import IotClient.Amqp.Handled
import IotClient.Amqp.Decoded
import IotClient.Amqp.Carried
import IotClient.Amqp.Absent
import IotClient.Amqp.ListFits
import IotClient.Amqp.Incoming
import IotClient.Payloads
import IotClient.App.Config
import IotClient.App.FirstPackets
import IotClient.App.StoredStrings
import IotClient.App.Publishing
import IotClient.App.Running
import IotClient.App.CoapSession
import IotClient.App.Handshake
